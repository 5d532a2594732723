import TxGen.SendBlocks.Forkchoice

set_option autoImplicit false

/-! # A replay submits every block once

The invariant of a run over its canonical blocks, its side forks and its forkchoices, and what is left
of it where a run is interrupted by an error. -/

namespace TxGen.SendBlocks

variable {H R B : Type}

/-- The sender after some more calls. -/
def Sender.sent (s : Sender H R) (calls : List (Call H R)) : Sender H R :=
  { s with calls := s.calls ++ calls }

@[simp] theorem Sender.sent_sent (s : Sender H R) (calls calls' : List (Call H R)) :
    (s.sent calls).sent calls' = s.sent (calls ++ calls') := by
  simp [Sender.sent]

namespace Replay

variable {env : Replay H R B}

/-! ## One submission -/

theorem record_spec {s : Sender H R} {call : Call H R} {E : Sender H R → Prop} :
    Triple (· = s) (record call) (fun _ s' => s' = s.sent [call]) E := by
  refine .write fun s' hs => ?_
  rw [hs]
  rfl

theorem submit_spec {s : Sender H R} {input : NewPayloadInput H R} {wait : Bool}
    {forkchoice : ForkchoiceState H} {kind : UpdateKind} {label : String} {E : Sender H R → Prop}
    (hpayload : E (s.sent [.newPayload input wait]))
    (hupdate : E (s.sent [.newPayload input wait, .forkchoiceUpdated forkchoice kind])) :
    Triple (· = s) (env.submit input wait forkchoice kind label)
      (fun _ s' => s' = s.sent [.newPayload input wait, .forkchoiceUpdated forkchoice kind]) E := by
  have hboth : (s.sent [.newPayload input wait]).sent [.forkchoiceUpdated forkchoice kind] =
      s.sent [.newPayload input wait, .forkchoiceUpdated forkchoice kind] := by
    simp
  have hpayload' : ∀ s', s' = s.sent [.newPayload input wait] → E s' := by
    rintro s' rfl
    exact hpayload
  have hupdate' : ∀ s', s' = (s.sent [.newPayload input wait]).sent
      [.forkchoiceUpdated forkchoice kind] → E s' := by
    rintro s' rfl
    rwa [hboth]
  rw [submit]
  refine .read fun s' hs => ?_
  rw [hs]
  refine record_spec.seq fun _ => ?_
  refine (Triple.lift (fun _ _ _ h => h) fun _ _ => hpayload').seq fun valid => ?_
  refine (Triple.lift (fun _ _ _ h => h) fun _ _ => hpayload').seq fun _ => ?_
  refine .read fun s' hs => ?_
  rw [hs]
  refine record_spec.seq fun _ => ?_
  refine (Triple.lift (fun _ _ _ h => h) fun _ _ => hupdate').seq fun valid => ?_
  exact Triple.lift (fun _ _ s' hs => hs.trans hboth) fun _ _ => hupdate'

/-! ## The invariant -/

variable (env) in
/-- Input blocks were submitted once and in order, side forks follow the batches, and the forkchoices
    are ordered; this holds of every run, wherever it ends. -/
structure Interrupted (parent : H → H → Prop) (depth gap : ℕ) (blocks : List (BlockLine H R))
    (calls : List (Call H R)) : Prop where
  inputs : canonicalInputs calls <+: blocks.map (·.input)
  heads : canonicalHeads calls <+: blocks.map (·.key)
  forks : ∃ started forks, started <+: batches depth gap blocks ∧ builds calls = forks.flatten ∧
    List.Forall₂ env.ForkOf started forks
  ordered : Ordered parent (updates calls)

variable (env) in
/-- Every block was submitted and every batch has its side fork. -/
structure Complete (depth gap : ℕ) (blocks : List (BlockLine H R)) (calls : List (Call H R)) :
    Prop where
  inputs : canonicalInputs calls = blocks.map (·.input)
  heads : canonicalHeads calls = blocks.map (·.key)
  forks : ∃ forks, builds calls = forks.flatten ∧ List.Forall₂
    (fun batch fork => env.ForkOf batch fork ∧ fork.length = batch.length)
    (batches depth gap blocks) forks

variable (env) in
/-- Between two blocks: `done` is submitted, the forks of `batched` are complete and one fork has come
    as far as `current`. -/
structure Inv (parent : H → H → Prop) (before : H) (reorg : ReorgState H R)
    (done : List (BlockLine H R)) (batched : List (List (BlockLine H R)))
    (current : List (BuildBlockRequest H × H)) (s : Sender H R) : Prop where
  reorg : s.reorg = reorg
  inputs : canonicalInputs s.calls = done.map (·.input)
  heads : canonicalHeads s.calls = done.map (·.key)
  forks : ∃ forks, builds s.calls = forks.flatten ++ current ∧ List.Forall₂
    (fun batch fork => env.ForkOf batch fork ∧ fork.length = batch.length) batched forks
  last : s.prevBlockHash = done.getLast?.map (·.key)
  unset : done = [] → s.finalizedHash = none
  consistent : Consistent parent s.finalizedHash (tipOf before done) (updates s.calls)

variable {parent : H → H → Prop} {before : H} {reorg : ReorgState H R} {depth gap : ℕ}
  {blocks done rest : List (BlockLine H R)} {batched : List (List (BlockLine H R))}
  {current : List (BuildBlockRequest H × H)} {s : Sender H R} {block : BlockLine H R}

theorem Inv.interrupted (h : env.Inv parent before reorg done batched [] s)
    (hdone : done <+: blocks) (hbatched : batched <+: batches depth gap blocks) :
    env.Interrupted parent depth gap blocks s.calls := by
  obtain ⟨forks, hbuilds, hforks⟩ := h.forks
  refine ⟨h.inputs ▸ hdone.map _, h.heads ▸ hdone.map _, ⟨batched, forks, hbatched, ?_, ?_⟩,
    h.consistent.toOrdered⟩
  · rw [hbuilds, List.append_nil]
  · exact hforks.imp fun batch fork hfork => hfork.1

theorem Inv.interrupted_fork {batch : List (BlockLine H R)}
    (h : env.Inv parent before reorg done batched current s) (hdone : done <+: blocks)
    (hbatched : batched ++ [batch] <+: batches depth gap blocks) (hfork : env.ForkOf batch current) :
    env.Interrupted parent depth gap blocks s.calls := by
  obtain ⟨forks, hbuilds, hforks⟩ := h.forks
  refine ⟨h.inputs ▸ hdone.map _, h.heads ▸ hdone.map _,
    ⟨batched ++ [batch], forks ++ [current], hbatched, ?_, ?_⟩, h.consistent.toOrdered⟩
  · rw [hbuilds, List.flatten_append, List.flatten_singleton]
  · exact List.rel_append (hforks.imp fun batch fork hfork => hfork.1) (.cons hfork .nil)

/-! ## Canonical blocks -/

/-- The anchor is on the chain, and nothing after it is finalized. -/
def Anchored (parent : H → H → Prop) (anchor : Option H) (tip : H) (s : Sender H R) : Prop :=
  ∀ a, anchor = some a → Ancestor parent a tip ∧
    ∀ u ∈ updates s.calls, Ancestor parent u.state.finalizedBlockHash a

/-- The sender after a canonical block. -/
def submitted (anchor : Option H) (block : BlockLine H R) (wait : Bool) (s : Sender H R) :
    Sender H R :=
  recordSuccess block ((checkpoints anchor block s).2.sent
    [.newPayload block.input wait, .forkchoiceUpdated
      ⟨block.key, (checkpoints anchor block s).1.1, (checkpoints anchor block s).1.2⟩
      (if anchor.isSome then .batch else .single)])

/-- What a canonical block does to the updates and the checkpoint. -/
theorem Inv.checkpoints {anchor : Option H} (h : env.Inv parent before reorg done batched [] s)
    (hanchor : Anchored parent anchor (tipOf before done) s)
    (hnext : parent (tipOf before done) block.key) :
    Consistent parent (checkpoints anchor block s).2.finalizedHash block.key
      (updates s.calls ++ [⟨⟨block.key, (checkpoints anchor block s).1.1,
        (checkpoints anchor block s).1.2⟩, if anchor.isSome then .batch else .single⟩]) := by
  have hstep : Ancestor parent (tipOf before done) block.key := .single hnext
  have hadvanced := h.consistent.advance hstep
  cases anchor with
  | some a =>
      obtain ⟨htip, hbefore⟩ := hanchor a rfl
      exact hadvanced.anchored (by simp) hbefore (htip.trans hstep) (htip.trans hstep)
  | none =>
      -- the previous block is safe, except that the first block is itself
      have hsafe : Ancestor parent (s.finalizedHash.getD (s.prevBlockHash.getD block.key))
            (s.prevBlockHash.getD block.key) ∧
          Ancestor parent (s.prevBlockHash.getD block.key) block.key := by
        rcases List.eq_nil_or_concat done with rfl | ⟨init, last, rfl⟩
        · rw [h.unset rfl, h.last]
          exact ⟨.refl, .refl⟩
        · have hprev : s.prevBlockHash = some last.key := by simp [h.last]
          rw [List.concat_eq_append, tipOf_push] at hstep
          rw [hprev]
          refine ⟨?_, hstep⟩
          cases hstored : s.finalizedHash with
          | none => exact .refl
          | some f => simpa using h.consistent.checkpoint f hstored
      refine hadvanced.single (fun f hf => ?_) hsafe.1 hsafe.2
      simp [hf]

theorem Inv.submitted {anchor : Option H} (h : env.Inv parent before reorg done batched [] s)
    (hanchor : Anchored parent anchor (tipOf before done) s)
    (hnext : parent (tipOf before done) block.key) (wait : Bool) :
    env.Inv parent before reorg (done ++ [block]) batched [] (submitted anchor block wait s) ∧
      Anchored parent anchor (tipOf before (done ++ [block])) (submitted anchor block wait s) := by
  have hconsistent := h.checkpoints hanchor hnext
  have hcalls : (Replay.submitted anchor block wait s).calls = s.calls ++
      [.newPayload block.input wait, .forkchoiceUpdated ⟨block.key,
        (Replay.checkpoints anchor block s).1.1, (Replay.checkpoints anchor block s).1.2⟩
        (if anchor.isSome then .batch else .single)] := by
    cases anchor <;> rfl
  have hkind : (if anchor.isSome then UpdateKind.batch else .single) ≠ .synthetic := by
    split <;> simp
  refine ⟨⟨?_, ?_, ?_, ?_, by simp [Replay.submitted, recordSuccess], by simp, ?_⟩, ?_⟩
  · rw [← h.reorg]
    cases anchor <;> rfl
  · have hinput := canonicalInputs_input block wait
    rw [hcalls, ← List.singleton_append, canonicalInputs_append, canonicalInputs_append, hinput,
      h.inputs, List.map_append]
    rfl
  · rw [hcalls, canonicalHeads_append, h.heads, List.map_append]
    simp [canonicalHeads, updates, hkind]
  · obtain ⟨forks, hbuilds, hforks⟩ := h.forks
    refine ⟨forks, ?_, hforks⟩
    rw [hcalls, builds_append, hbuilds]
    simp [builds]
  · rw [hcalls, updates_append, tipOf_push]
    show Consistent parent (if block.number % 32 = 0 then some block.key else _) _ _
    split
    · exact hconsistent.store
    · exact hconsistent
  · rintro a rfl
    obtain ⟨htip, hbefore⟩ := hanchor a rfl
    rw [hcalls, updates_append, tipOf_push]
    refine ⟨htip.trans (.single hnext), List.forall_mem_append.2 ⟨hbefore, ?_⟩⟩
    simpa [updates, Replay.checkpoints] using Relation.ReflTransGen.refl

/-- A payload is sent before its forkchoice update. -/
theorem Inv.interrupted_payload (h : env.Inv parent before reorg done batched [] s)
    (hdone : done ++ [block] <+: blocks) (hbatched : batched <+: batches depth gap blocks)
    (wait : Bool) :
    env.Interrupted parent depth gap blocks (s.calls ++ [.newPayload block.input wait]) := by
  obtain ⟨-, hheads, hforks, hordered⟩ :=
    h.interrupted ((List.prefix_append _ _).trans hdone) hbatched
  refine ⟨?_, ?_, ?_, ?_⟩
  · rw [canonicalInputs_append, canonicalInputs_input, h.inputs]
    simpa using hdone.map (·.input)
  · simpa [canonicalHeads, updates] using hheads
  · simpa [builds] using hforks
  · simpa [updates] using hordered

theorem processBlock_spec {anchor : Option H} (hchain : env.Consecutive parent before blocks)
    (hblocks : blocks = done ++ block :: rest) (hbatched : batched <+: batches depth gap blocks) :
    Triple (fun s => env.Inv parent before reorg done batched [] s ∧
        Anchored parent anchor (tipOf before done) s)
      (env.processBlock anchor block)
      (fun _ s => env.Inv parent before reorg (done ++ [block]) batched [] s ∧
        Anchored parent anchor (tipOf before (done ++ [block])) s)
      (fun s => env.Interrupted parent depth gap blocks s.calls) := by
  have hdone : done ++ [block] <+: blocks := ⟨rest, by simp [hblocks]⟩
  have hnext := (Consecutive.next (hblocks ▸ hchain)).2
  rw [processBlock]
  refine .read fun s hs => ?_
  obtain ⟨hinv, hanchor⟩ := hs
  have hafter := hinv.submitted hanchor hnext (env.persistencePolicy.shouldWait s.blocksSubmitted)
  have hinterrupted := hafter.1.interrupted hdone hbatched
  have hpayload := hinv.interrupted_payload hdone hbatched
    (env.persistencePolicy.shouldWait s.blocksSubmitted)
  have hcalls : (checkpoints anchor block s).2.calls = s.calls := by
    cases anchor <;> rfl
  rw [← hcalls] at hpayload
  have hchosen : Triple (· = s) (set (checkpoints anchor block s).2 : Run H R PUnit)
      (fun _ s' => s' = (checkpoints anchor block s).2)
      (fun s => env.Interrupted parent depth gap blocks s.calls) := .assign fun _ _ => rfl
  refine hchosen.seq fun _ => (submit_spec hpayload hinterrupted).seq fun _ => ?_
  have hrecord : ∀ s' : Sender H R, Triple (· = s') (modify (recordSuccess block) : Run H R PUnit)
      (fun _ t => t = recordSuccess block s')
      (fun s => env.Interrupted parent depth gap blocks s.calls) :=
    fun s' => .write fun t ht => congrArg (recordSuccess block) ht
  refine (hrecord _).seq fun _ => ?_
  refine .read fun s' hs' => Triple.lift (fun _ _ t ht => ?_) fun _ _ t ht => ?_
  · rw [ht, hs']
    exact hafter
  · rw [ht, hs']
    exact hinterrupted

/-- A list of blocks, all with one anchor. -/
theorem processBlocks_spec {anchor : Option H} {submit : List (BlockLine H R)}
    (hchain : env.Consecutive parent before blocks) (hblocks : blocks = done ++ (submit ++ rest))
    (hbatched : batched <+: batches depth gap blocks) :
    Triple (fun s => env.Inv parent before reorg done batched [] s ∧
        Anchored parent anchor (tipOf before done) s)
      (submit.forM (env.processBlock anchor))
      (fun _ s => env.Inv parent before reorg (done ++ submit) batched [] s)
      (fun s => env.Interrupted parent depth gap blocks s.calls) := by
  have hloop : Triple _ (submit.forM (env.processBlock anchor)) _
      (fun s => env.Interrupted parent depth gap blocks s.calls) :=
    .forM (fun part s => env.Inv parent before reorg (done ++ part) batched [] s ∧
      Anchored parent anchor (tipOf before (done ++ part)) s) fun part block others hsubmit => by
        have hsplit : blocks = (done ++ part) ++ block :: (others ++ rest) := by
          simp [hblocks, hsubmit]
        simpa using processBlock_spec hchain hsplit hbatched
  refine hloop.weaken (fun s hs => ?_) (fun _ s hs => hs.1) fun _ hs => hs
  simpa using hs

/-! ## Side forks -/

theorem buildRequest_parent {parentHash : H} {request : BuildBlockRequest H}
    (h : env.buildRequest block parentHash = .ok request) : request.parentBlockHash = parentHash := by
  rw [buildRequest] at h
  obtain ⟨_, -, h⟩ := bind_eq_ok.1 h
  obtain ⟨_, -, h⟩ := bind_eq_ok.1 h
  rw [← Except.ok.inj h]

variable (env) in
/-- A side fork has come as far as `current`. -/
structure Forking (parent : H → H → Prop) (before : H) (reorg : ReorgState H R)
    (done : List (BlockLine H R)) (batched : List (List (BlockLine H R)))
    (batch part : List (BlockLine H R)) (parentHash : H) (s : Sender H R)
    (current : List (BuildBlockRequest H × H)) : Prop where
  inv : env.Inv parent before reorg done batched current s
  length : current.length = part.length
  fork : env.SideFork (tipOf before done) batch current
  tip : parentHash = forkTip (tipOf before done) current
  above : Ancestor parent (tipOf before done) parentHash
  finalized : ∀ u ∈ updates s.calls,
    Ancestor parent u.state.finalizedBlockHash (tipOf before done)

/-- Calls that change nothing that is canonical leave the invariant as it is. -/
theorem Forking.built {batch part others : List (BlockLine H R)} {parentHash : H}
    {request : BuildBlockRequest H} {envelope : Envelope H R}
    (h : env.Forking parent before reorg done batched batch part parentHash s current)
    (hbatch : batch = part ++ block :: others)
    (hrequest : env.buildRequest block parentHash = .ok request)
    (hparent : parent parentHash envelope.blockHash) (root : Option H) (wait : Bool) :
    env.Forking parent before reorg done batched batch (part ++ [block]) envelope.blockHash
      (s.sent [.buildBlock request (.ok envelope), .newPayload (.executionData envelope root) wait,
        .forkchoiceUpdated ⟨envelope.blockHash, tipOf before done, tipOf before done⟩ .synthetic])
      (current ++ [(request, envelope.blockHash)]) := by
  have habove : Ancestor parent (tipOf before done) envelope.blockHash := h.above.tail hparent
  obtain ⟨forks, hbuilds, hforks⟩ := h.inv.forks
  refine ⟨⟨h.inv.reorg, ?_, ?_, ⟨forks, ?_, hforks⟩, h.inv.last, h.inv.unset, ?_⟩, ?_, ?_, ?_,
    habove, ?_⟩
  · simpa [Sender.sent, canonicalInputs] using h.inv.inputs
  · simpa [Sender.sent, canonicalHeads, updates] using h.inv.heads
  · rw [Sender.sent, builds_append, hbuilds]
    simp [builds]
  · have hkind : UpdateKind.synthetic ≠ .single := by simp
    have hanchored := h.inv.consistent.anchored hkind h.finalized .refl habove
    simpa [Sender.sent, updates] using hanchored
  · simp [h.length]
  · rw [hbatch] at h ⊢
    exact h.fork.push h.length (h.tip ▸ hrequest)
  · simp [forkTip]
  · rw [Sender.sent, updates_append]
    refine List.forall_mem_append.2 ⟨h.finalized, ?_⟩
    simpa [updates] using Relation.ReflTransGen.refl

/-- Until its update is sent, a block of a side fork changes no update. -/
theorem Forking.interrupted {batch part : List (BlockLine H R)} {parentHash : H}
    (h : env.Forking parent before reorg done batched batch part parentHash s current)
    (hanchor : env.branchPoint batch = .ok (tipOf before done)) (hdone : done <+: blocks)
    (hbatched : batched ++ [batch] <+: batches depth gap blocks) :
    env.Interrupted parent depth gap blocks s.calls :=
  h.inv.interrupted_fork hdone hbatched ⟨_, hanchor, h.fork⟩

/-- Calls without update, canonical payload or built block leave what a run may be interrupted in. -/
theorem Interrupted.sent {calls more : List (Call H R)}
    (h : env.Interrupted parent depth gap blocks calls) (hinputs : canonicalInputs more = [])
    (hupdates : updates more = []) (hbuilds : builds more = []) :
    env.Interrupted parent depth gap blocks (calls ++ more) := by
  obtain ⟨started, forks, hstarted, hforks⟩ := h.forks
  refine ⟨?_, ?_, ⟨started, forks, hstarted, ?_⟩, ?_⟩
  · simpa [hinputs] using h.inputs
  · simpa [canonicalHeads, hupdates] using h.heads
  · simpa [hbuilds] using hforks
  · simpa [hupdates] using h.ordered

theorem Interrupted.unsent {calls : List (Call H R)} (forkchoice : ForkchoiceState H)
    (h : env.Interrupted parent depth gap blocks
      (calls ++ [.forkchoiceUpdated forkchoice .synthetic])) :
    env.Interrupted parent depth gap blocks calls := by
  obtain ⟨started, forks, hstarted, hbuilds, hforks⟩ := h.forks
  refine ⟨?_, ?_, ⟨started, forks, hstarted, ?_, hforks⟩, ?_⟩
  · simpa [canonicalInputs] using h.inputs
  · simpa [canonicalHeads, updates] using h.heads
  · simpa [builds] using hbuilds
  · have hordered := h.ordered
    rw [updates_append] at hordered
    exact ⟨fun u hu => hordered.within u (List.mem_append_left _ hu),
      (List.pairwise_append.1 hordered.forward).1⟩

theorem processSyntheticBlock_spec {batch part others : List (BlockLine H R)} {parentHash : H}
    {index : ℕ} (hbuild : ∀ calls request envelope, env.buildBlock calls request = .ok envelope →
      parent request.parentBlockHash envelope.blockHash)
    (hanchor : env.branchPoint batch = .ok (tipOf before done)) (hdone : done <+: blocks)
    (hbatched : batched ++ [batch] <+: batches depth gap blocks)
    (hbatch : batch = part ++ block :: others) :
    Triple
      (fun s => ∃ current,
        env.Forking parent before reorg done batched batch part parentHash s current)
      (env.processSyntheticBlock (tipOf before done) parentHash (block, index))
      (fun hash s => ∃ current,
        env.Forking parent before reorg done batched batch (part ++ [block]) hash s current)
      (fun s => env.Interrupted parent depth gap blocks s.calls) := by
  refine .of_states fun s hs => ?_
  obtain ⟨current, hforking⟩ := hs
  have hinterrupted := hforking.interrupted hanchor hdone hbatched
  rw [processSyntheticBlock]
  dsimp only
  refine Triple.seq (R := fun request t => env.buildRequest block parentHash = .ok request ∧ t = s)
    (.lift (fun request hrequest t ht => ⟨hrequest, ht⟩) fun _ _ t ht => ht ▸ hinterrupted)
    fun request => .read fun t ht => ?_
  obtain ⟨hrequest, rfl⟩ := ht
  refine record_spec.seq fun _ => ?_
  refine Triple.seq (R := fun envelope s' => env.buildBlock t.calls request = .ok envelope ∧
    s' = t.sent [.buildBlock request (env.buildBlock t.calls request)])
    (.lift (fun envelope henvelope s' hs' => ⟨wrapErr_eq_ok.1 henvelope, hs'⟩)
      fun e herror s' hs' => ?_) fun envelope => .of_states fun s' hs' => ?_
  · -- nothing was built
    cases hanswer : env.buildBlock t.calls request with
    | ok envelope =>
        rw [hanswer] at herror
        cases herror
    | error e =>
        rw [hs', hanswer]
        exact hinterrupted.sent rfl rfl rfl
  · obtain ⟨henvelope, rfl⟩ := hs'
    rw [henvelope]
    have hparent := hbuild _ _ _ henvelope
    rw [buildRequest_parent hrequest] at hparent
    have hafter := hforking.built hbatch hrequest hparent
      request.payloadAttributes.parentBeaconBlockRoot
      (env.persistencePolicy.shouldWait (t.blocksSubmitted + index))
    have hend := hafter.interrupted hanchor hdone hbatched
    refine (submit_spec ?_ ?_).seq fun _ => .ret fun s' hs' =>
      ⟨current ++ [(request, envelope.blockHash)], ?_⟩
    · refine Interrupted.unsent ⟨envelope.blockHash, tipOf before done, tipOf before done⟩ ?_
      simpa [Sender.sent] using hend
    · simpa using hend
    · rw [hs', Sender.sent_sent]
      exact hafter

/-- A side fork of the next batch, from its branch point. -/
theorem processFork_spec {batch : List (BlockLine H R)}
    (hbuild : ∀ calls request envelope, env.buildBlock calls request = .ok envelope →
      parent request.parentBlockHash envelope.blockHash)
    (hanchor : env.branchPoint batch = .ok (tipOf before done)) (hdone : done <+: blocks)
    (hbatched : batched ++ [batch] <+: batches depth gap blocks) :
    Triple (fun s => env.Inv parent before reorg done batched [] s)
      (batch.zipIdx.foldlM (env.processSyntheticBlock (tipOf before done)) (tipOf before done))
      (fun _ s => env.Inv parent before reorg done (batched ++ [batch]) [] s ∧
        Anchored parent (some (tipOf before done)) (tipOf before done) s)
      (fun s => env.Interrupted parent depth gap blocks s.calls) := by
  have hloop : Triple _ (batch.zipIdx.foldlM (env.processSyntheticBlock (tipOf before done))
      (tipOf before done)) _ (fun s => env.Interrupted parent depth gap blocks s.calls) :=
    .foldlM (fun part hash s => ∃ current, env.Forking parent before reorg done batched batch
      (part.map Prod.fst) hash s current) (fun part indexed others hash hsplit => by
        obtain ⟨block, index⟩ := indexed
        have hbatch : batch = part.map Prod.fst ++ block :: others.map Prod.fst := by
          rw [← List.zipIdx_map_fst 0 batch, hsplit, List.map_append, List.map_cons]
        simpa using processSyntheticBlock_spec hbuild hanchor hdone hbatched hbatch) _
  refine hloop.weaken (fun s hs => ?_) (fun hash s hs => ?_) fun _ hs => hs
  · -- an empty fork, of which the branch point is the tip
    refine ⟨[], hs, rfl, by cases batch <;> simp [SideFork], rfl, .refl, ?_⟩
    exact hs.consistent.reached
  · obtain ⟨current, hforking⟩ := hs
    obtain ⟨forks, hbuilds, hforks⟩ := hforking.inv.forks
    refine ⟨⟨hforking.inv.reorg, hforking.inv.inputs, hforking.inv.heads,
      ⟨forks ++ [current], ?_, ?_⟩, hforking.inv.last, hforking.inv.unset,
      hforking.inv.consistent⟩, ?_⟩
    · simp [hbuilds]
    · have hlength : current.length = batch.length := by simpa using hforking.length
      exact List.rel_append hforks (.cons ⟨⟨_, hanchor, hforking.fork⟩, hlength⟩ .nil)
    · rintro a ⟨⟩
      exact ⟨.refl, hforking.finalized⟩

/-! ## A whole run -/

theorem branchPoint_spec {batch : List (BlockLine H R)} (hne : batch ≠ [])
    (hchain : env.Consecutive parent before blocks) (hblocks : blocks = done ++ (batch ++ rest)) :
    env.branchPoint batch = .ok (tipOf before done) := by
  obtain ⟨first, others, rfl⟩ := List.exists_cons_of_ne_nil hne
  rw [List.cons_append] at hblocks
  obtain ⟨⟨header, body, hsplit, hparent⟩, -⟩ := Consecutive.next (hblocks ▸ hchain)
  rw [branchPoint, hsplit, ← hparent]
  rfl

theorem processReorgAction_spec {action : ReorgAction H R}
    (hbuild : ∀ calls request envelope, env.buildBlock calls request = .ok envelope →
      parent request.parentBlockHash envelope.blockHash)
    (hchain : env.Consecutive parent before blocks)
    (hblocks : blocks = done ++ (action.blocks ++ rest))
    (hbatched : batched ++ action.batched <+: batches depth gap blocks)
    (hne : ∀ batch ∈ action.batched, batch ≠ []) :
    Triple (fun s => env.Inv parent before reorg done batched [] s)
      (env.processReorgAction action)
      (fun _ s => env.Inv parent before reorg (done ++ action.blocks) (batched ++ action.batched) [] s)
      (fun s => env.Interrupted parent depth gap blocks s.calls) := by
  cases action with
  | pending => exact .ret fun s hs => by simpa [ReorgAction.blocks, ReorgAction.batched] using hs
  | canonical submit =>
      simp only [ReorgAction.batched, List.append_nil] at hbatched ⊢
      refine (processBlocks_spec hchain hblocks hbatched).weaken (fun s hs => ⟨hs, ?_⟩)
        (fun _ _ hs => hs) fun _ hs => hs
      rintro a ⟨⟩
  | batch batch =>
      simp only [ReorgAction.batched, ReorgAction.blocks, List.forall_mem_singleton] at *
      have hanchor := branchPoint_spec hne hchain hblocks
      have hdone : done <+: blocks := ⟨_, hblocks.symm⟩
      rw [processReorgAction]
      refine Triple.seq (R := fun anchor s => anchor = tipOf before done ∧
        env.Inv parent before reorg done batched [] s) (.lift (fun anchor hok s hs => ⟨?_, hs⟩)
          fun e herror s _ => ?_) fun anchor => .of_states fun s hs => ?_
      · exact Except.ok.inj (hok.symm.trans hanchor)
      · rw [hanchor] at herror
        cases herror
      · obtain ⟨rfl, hinv⟩ := hs
        refine Triple.seq ?_ fun _ => processBlocks_spec hchain hblocks hbatched
        exact (processFork_spec hbuild hanchor hdone hbatched).weaken (fun t ht => ht ▸ hinv)
          (fun _ _ h => h) fun _ h => h

/-- A reorg state after some of the input, with what it has decided on. -/
structure Scheduled (depth gap : ℕ) (reorg : ReorgState H R) (input done : List (BlockLine H R))
    (batched : List (List (BlockLine H R))) : Prop where
  valid : reorg.Valid
  same : reorg.depth = depth ∧ reorg.gap = gap
  seen : input = done ++ reorg.pending
  plan : ∀ rest, batches depth gap (input ++ rest) = batched ++ reorg.plan rest

theorem Scheduled.push {input : List (BlockLine H R)}
    (h : Scheduled depth gap reorg input done batched) (block : BlockLine H R) :
    Scheduled depth gap (reorg.push block).2 (input ++ [block])
      (done ++ (reorg.push block).1.blocks) (batched ++ (reorg.push block).1.batched) := by
  have hpushed := ReorgState.push_spec h.valid block
  refine ⟨hpushed.valid, ?_, ?_, fun rest => ?_⟩
  · rw [hpushed.same.1, hpushed.same.2]
    exact h.same
  · rw [List.append_assoc, hpushed.blocks, h.seen, List.append_assoc]
  · rw [List.append_assoc, List.append_assoc, hpushed.plan, List.singleton_append]
    exact h.plan (block :: rest)

variable (env) in
/-- Between two lines of the input. -/
def Between (parent : H → H → Prop) (before : H) (depth gap : ℕ) (input : List (BlockLine H R))
    (s : Sender H R) : Prop :=
  ∃ reorg done batched, Scheduled depth gap reorg input done batched ∧
    env.Inv parent before reorg done batched [] s

theorem processScheduled_spec {schedule : ReorgState H R → ReorgAction H R × ReorgState H R}
    (hbuild : ∀ calls request envelope, env.buildBlock calls request = .ok envelope →
      parent request.parentBlockHash envelope.blockHash)
    (hchain : env.Consecutive parent before blocks)
    (hblocks : blocks = done ++ ((schedule reorg).1.blocks ++ rest))
    (hbatched : batched ++ (schedule reorg).1.batched <+: batches depth gap blocks)
    (hne : ∀ batch ∈ (schedule reorg).1.batched, batch ≠ []) :
    Triple (fun s => env.Inv parent before reorg done batched [] s)
      (env.processScheduled schedule)
      (fun _ s => env.Inv parent before (schedule reorg).2 (done ++ (schedule reorg).1.blocks)
        (batched ++ (schedule reorg).1.batched) [] s)
      (fun s => env.Interrupted parent depth gap blocks s.calls) := by
  rw [processScheduled]
  refine .read fun s hs => ?_
  have hreorg := hs.reorg
  rw [hreorg]
  refine Triple.seq (.assign fun _ _ => ?_) fun _ =>
    processReorgAction_spec hbuild hchain hblocks hbatched hne
  exact ⟨rfl, hs.inputs, hs.heads, hs.forks, hs.last, hs.unset, hs.consistent⟩

/-- One more line of the input. -/
theorem processLine_spec {input others : List (BlockLine H R)} (hdepth : 0 < depth)
    (hbuild : ∀ calls request envelope, env.buildBlock calls request = .ok envelope →
      parent request.parentBlockHash envelope.blockHash)
    (hchain : env.Consecutive parent before blocks) (hblocks : blocks = input ++ block :: others) :
    Triple (env.Between parent before depth gap input) (env.processScheduled (·.push block))
      (fun _ => env.Between parent before depth gap (input ++ [block]))
      (fun s => env.Interrupted parent depth gap blocks s.calls) := by
  refine .of_states fun s hs => ?_
  obtain ⟨reorg, done, batched, hscheduled, hinv⟩ := hs
  have hpushed := ReorgState.push_spec hscheduled.valid block
  have hnext := hscheduled.push block
  have hplan := hnext.plan others
  rw [List.append_assoc, List.singleton_append, ← hblocks] at hplan
  have hsplit : blocks = done ++ ((reorg.push block).1.blocks ++
      ((reorg.push block).2.pending ++ others)) := by
    rw [← List.append_assoc (reorg.push block).1.blocks, hpushed.blocks, hblocks, hscheduled.seen]
    simp
  have hbatched : batched ++ (reorg.push block).1.batched <+: batches depth gap blocks :=
    ⟨_, hplan.symm⟩
  have hne : ∀ batch ∈ (reorg.push block).1.batched, batch ≠ [] := by
    intro batch hin
    have hlength := length_of_mem_batches (hbatched.subset (List.mem_append_right _ hin))
    exact List.ne_nil_of_length_pos (hlength ▸ hdepth)
  refine (processScheduled_spec hbuild hchain hsplit hbatched hne).weaken
    (fun t ht => ht ▸ hinv) (fun _ t ht => ?_) fun _ h => h
  exact ⟨_, _, _, hnext, ht⟩

theorem Inv.init (parent : H → H → Prop) (before : H) (depth gap : ℕ) :
    env.Inv parent before { depth, gap } [] [] [] { reorg := { depth, gap } } :=
  ⟨rfl, rfl, rfl, ⟨[], rfl, .nil⟩, rfl, fun _ => rfl, .empty⟩

theorem execute_spec (gap : ℕ) (hdepth : 0 < depth)
    (hbuild : ∀ calls request envelope, env.buildBlock calls request = .ok envelope →
      parent request.parentBlockHash envelope.blockHash)
    (hchain : env.Consecutive parent before blocks) :
    Triple (· = { reorg := { depth, gap } }) (env.execute blocks)
      (fun _ s => env.Complete depth gap blocks s.calls ∧
        env.Interrupted parent depth gap blocks s.calls)
      (fun s => env.Interrupted parent depth gap blocks s.calls) := by
  have hlines : Triple (env.Between parent before depth gap [])
      (blocks.forM fun block => env.processScheduled (·.push block)) _
      (fun s => env.Interrupted parent depth gap blocks s.calls) :=
    .forM (env.Between parent before depth gap) fun input block others hblocks =>
      processLine_spec hdepth hbuild hchain hblocks
  refine Triple.seq (hlines.weaken (fun s hs => ?_) (fun _ _ h => h) fun _ h => h) fun _ =>
    .of_states fun s hs => ?_
  · -- nothing has been read
    refine ⟨{ depth, gap }, [], [], ⟨⟨hdepth, fun _ => rfl⟩, ⟨rfl, rfl⟩, rfl, fun rest => ?_⟩,
      hs ▸ Inv.init parent before depth gap⟩
    simp [ReorgState.plan]
  · -- the end of the input
    obtain ⟨reorg, done, batched, hscheduled, hinv⟩ := hs
    have hall : batches depth gap blocks = batched := by
      simpa [ReorgState.plan_nil hscheduled.valid] using hscheduled.plan []
    have hsplit : blocks = done ++ ((ReorgAction.canonical reorg.pending).blocks ++ []) := by
      simpa [ReorgAction.blocks] using hscheduled.seen
    have hbatched : batched ++ (ReorgAction.canonical reorg.pending).batched <+:
        batches depth gap blocks := by simp [ReorgAction.batched, hall]
    have hfinish : Triple (env.Inv parent before reorg done batched [])
        (env.processScheduled (·.finish)) _ _ :=
      processScheduled_spec hbuild hchain hsplit hbatched (by simp [ReorgState.finish, ReorgAction.batched])
    refine hfinish.weaken (fun t ht => ht ▸ hinv) (fun _ t ht => ?_) fun _ h => h
    simp only [ReorgState.finish, ReorgAction.blocks, ReorgAction.batched, List.append_nil,
      ← hscheduled.seen, ← hall] at ht
    refine ⟨⟨ht.inputs, ht.heads, ?_⟩, ht.interrupted (List.prefix_refl _) (List.prefix_refl _)⟩
    obtain ⟨forks, hbuilds, hforks⟩ := ht.forks
    exact ⟨forks, by simpa using hbuilds, hforks⟩

end Replay

open Replay in
/-- A replay with side forks, whatever the node answers: wherever the run ends, it has submitted a part
    of the input once and in order, its side forks follow the batches, and its forkchoices are ordered;
    a run without an error has submitted every block and has a side fork for every batch. -/
theorem reorg_replay (env : Replay H R B) (parent : H → H → Prop)
    (hbuild : ∀ calls request envelope, env.buildBlock calls request = .ok envelope →
      parent request.parentBlockHash envelope.blockHash)
    {depth gap : ℕ} (hdepth : 0 < depth) {before : H} {blocks : List (BlockLine H R)}
    (hchain : env.Consecutive parent before blocks) :
    env.Interrupted parent depth gap blocks (env.run depth gap blocks).2.calls ∧
      ((env.run depth gap blocks).1 = .ok ⟨⟩ →
        env.Complete depth gap blocks (env.run depth gap blocks).2.calls) := by
  have hrun := execute_spec gap hdepth hbuild hchain { reorg := { depth, gap } } rfl
  rw [run]
  cases hresult : env.execute blocks { reorg := { depth, gap } } with
  | ok a s =>
      rw [hresult] at hrun
      exact ⟨hrun.2, fun _ => hrun.1⟩
  | error e s =>
      rw [hresult] at hrun
      exact ⟨hrun, nofun⟩

/-! ### Four blocks, with a gap after every block -/

namespace ReplaySample

/-- The block `n + 1000` is built on `n`; the input blocks below follow each other. -/
def parent (a b : ℕ) : Prop := b = a + 1000 ∨ (b = a + 1 ∧ b < 1000)

/-- The raw bytes of a block are the hash of its parent. -/
def env : Replay ℕ ℕ Unit where
  splitBlockRlp raw := .ok ({ parentHash := raw }, ())
  extractEncodedTxsFromBody _ := .ok []
  persistencePolicy := .never
  buildBlock _ request := .ok { blockHash := request.parentBlockHash + 1000, payload := 0 }
  newPayload _ _ := .ok true
  forkchoiceUpdated _ _ := .ok true
  onProgress _ := .ok ()

def blocks : List (BlockLine ℕ ℕ) :=
  (List.range 4).map fun i => { raw := i, key := i + 1, number := i + 1, timestamp := i }

theorem built (calls : List (Call ℕ ℕ)) (request : BuildBlockRequest ℕ) (envelope : Envelope ℕ ℕ)
    (h : env.buildBlock calls request = .ok envelope) :
    parent request.parentBlockHash envelope.blockHash := by
  rw [← Except.ok.inj h]
  exact .inl rfl

theorem consecutive : env.Consecutive parent 0 blocks := by
  simp [blocks, List.range, List.range.loop, Replay.Consecutive, env, parent]

theorem le_of_ancestor {a b : ℕ} (h : Ancestor parent a b) : a ≤ b := by
  induction h with
  | refl => exact Nat.le_refl _
  | tail _ hstep ih =>
      rcases hstep with hstep | ⟨hstep, -⟩ <;> omega

end ReplaySample

open ReplaySample in
/-- After the batch of the third block, which finalizes the second one, the checkpoint is finalized
    again, and that is the first block. -/
theorem reorg_replay_moves_back :
    (∀ calls request envelope, env.buildBlock calls request = .ok envelope →
      parent request.parentBlockHash envelope.blockHash) ∧
    env.Consecutive parent 0 blocks ∧ (env.run 1 1 blocks).1 = .ok ⟨⟩ ∧
    ¬ (updates (env.run 1 1 blocks).2.calls).IsChain fun u v =>
      Ancestor parent u.state.finalizedBlockHash v.state.finalizedBlockHash := by
  have hcheck : (env.run 1 1 blocks).1.isOk = true := by decide +kernel
  have hok : ∀ result : Except Report PUnit, result.isOk = true → result = .ok ⟨⟩
    | .ok _, _ => rfl
  refine ⟨built, consecutive, hok _ hcheck, fun hchain => ?_⟩
  have hfinalized : (updates (env.run 1 1 blocks).2.calls).map
      (fun u => u.state.finalizedBlockHash) = [0, 0, 1, 2, 2, 1] := by decide +kernel
  have hmapped : [0, 0, 1, 2, 2, 1].IsChain (Ancestor parent) := by
    rw [← hfinalized, List.isChain_map]
    exact hchain
  simp only [List.isChain_cons_cons] at hmapped
  have := le_of_ancestor hmapped.2.2.2.2.1
  omega

open ReplaySample in
theorem reorg_replay_sample :
    env.Interrupted parent 1 1 blocks (env.run 1 1 blocks).2.calls ∧
      ((env.run 1 1 blocks).1 = .ok ⟨⟩ →
        env.Complete 1 1 blocks (env.run 1 1 blocks).2.calls) :=
  reorg_replay env parent built (by decide) consecutive

end TxGen.SendBlocks
