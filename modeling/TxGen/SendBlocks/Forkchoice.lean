import TxGen.Lib.Triples
import TxGen.SendBlocks.Schedule

set_option autoImplicit false

/-! # Forkchoices of a replay

The blocks that the node knows form a tree. Within a batch the branch point is finalized, outside of it
the last checkpoint; each rule on its own only moves forward, and a batch never falls behind the
checkpoint. -/

namespace TxGen.SendBlocks

variable {H R B : Type}

/-! ## Updates over a tree of blocks -/

structure Update (H : Type) where
  state : ForkchoiceState H
  kind : UpdateKind

/-- `a` is `b` or an ancestor of it. -/
abbrev Ancestor (parent : H → H → Prop) : H → H → Prop := Relation.ReflTransGen parent

/-- Finalized, safe and head follow each other in the tree. The finalized block does not move back,
    unless from a batch to a single block. -/
structure Ordered (parent : H → H → Prop) (updates : List (Update H)) : Prop where
  within : ∀ u ∈ updates, Ancestor parent u.state.finalizedBlockHash u.state.safeBlockHash ∧
    Ancestor parent u.state.safeBlockHash u.state.headBlockHash
  forward : updates.Pairwise fun u v => (u.kind = .single ∨ v.kind ≠ .single) →
    Ancestor parent u.state.finalizedBlockHash v.state.finalizedBlockHash

/-- The updates so far, when `tip` is the last canonical block and `stored` the checkpoint. -/
structure Consistent (parent : H → H → Prop) (stored : Option H) (tip : H)
    (updates : List (Update H)) : Prop extends Ordered parent updates where
  reached : ∀ u ∈ updates, Ancestor parent u.state.finalizedBlockHash tip
  kept : ∀ u ∈ updates, u.kind = .single →
    ∃ f, stored = some f ∧ Ancestor parent u.state.finalizedBlockHash f
  checkpoint : ∀ f, stored = some f → Ancestor parent f tip

namespace Consistent

variable {parent : H → H → Prop} {stored : Option H} {tip tip' : H} {updates : List (Update H)}

theorem empty : Consistent parent none tip [] :=
  ⟨⟨nofun, .nil⟩, nofun, nofun, nofun⟩

theorem advance (h : Consistent parent stored tip updates) (hnext : Ancestor parent tip tip') :
    Consistent parent stored tip' updates :=
  ⟨h.toOrdered, fun u hu => (h.reached u hu).trans hnext, h.kept,
    fun f hf => (h.checkpoint f hf).trans hnext⟩

/-- The last canonical block becomes the checkpoint. -/
theorem store (h : Consistent parent stored tip updates) :
    Consistent parent (some tip) tip updates :=
  ⟨h.toOrdered, h.reached, fun u hu _ => ⟨tip, rfl, h.reached u hu⟩, fun f hf => by
    rw [Option.some.inj hf]⟩

theorem append {u : Update H} (h : Consistent parent stored tip updates)
    (hwithin : Ancestor parent u.state.finalizedBlockHash u.state.safeBlockHash ∧
      Ancestor parent u.state.safeBlockHash u.state.headBlockHash)
    (hforward : ∀ v ∈ updates, v.kind = .single ∨ u.kind ≠ .single →
      Ancestor parent v.state.finalizedBlockHash u.state.finalizedBlockHash)
    (hreached : Ancestor parent u.state.finalizedBlockHash tip)
    (hkept : u.kind = .single →
      ∃ f, stored = some f ∧ Ancestor parent u.state.finalizedBlockHash f) :
    Consistent parent stored tip (updates ++ [u]) := by
  refine ⟨⟨?_, ?_⟩, ?_, ?_, h.checkpoint⟩
  · exact List.forall_mem_append.2 ⟨h.within, List.forall_mem_singleton.2 hwithin⟩
  · rw [List.pairwise_append]
    refine ⟨h.forward, List.pairwise_singleton _ _, fun v hv w hw => ?_⟩
    rw [List.mem_singleton.1 hw]
    exact hforward v hv
  · exact List.forall_mem_append.2 ⟨h.reached, List.forall_mem_singleton.2 hreached⟩
  · exact List.forall_mem_append.2 ⟨h.kept, List.forall_mem_singleton.2 hkept⟩

/-- An update of a batch finalizes the branch point. -/
theorem anchored {anchor head : H} {kind : UpdateKind} (h : Consistent parent stored tip updates)
    (hkind : kind ≠ .single)
    (hbefore : ∀ u ∈ updates, Ancestor parent u.state.finalizedBlockHash anchor)
    (htip : Ancestor parent anchor tip) (hhead : Ancestor parent anchor head) :
    Consistent parent stored tip (updates ++ [⟨⟨head, anchor, anchor⟩, kind⟩]) :=
  h.append ⟨.refl, hhead⟩ (fun v hv _ => hbefore v hv) htip fun hsingle => absurd hsingle hkind

/-- An update of a single block finalizes the checkpoint. -/
theorem single {safe finalized : H} (h : Consistent parent stored tip updates)
    (hstored : ∀ f, stored = some f → f = finalized) (hsafe : Ancestor parent finalized safe)
    (htip : Ancestor parent safe tip) : Consistent parent (some finalized) tip
      (updates ++ [⟨⟨tip, safe, finalized⟩, .single⟩]) := by
  have hkept : ∀ u ∈ updates, u.kind = .single →
      Ancestor parent u.state.finalizedBlockHash finalized := by
    intro u hu hkind
    obtain ⟨f, hf, hle⟩ := h.kept u hu hkind
    rwa [hstored f hf] at hle
  have hsome : Consistent parent (some finalized) tip updates :=
    ⟨h.toOrdered, h.reached, fun u hu hkind => ⟨finalized, rfl, hkept u hu hkind⟩, fun f hf => by
      rw [← Option.some.inj hf]
      exact hsafe.trans htip⟩
  refine hsome.append ⟨hsafe, htip⟩ (fun v hv hkind => ?_) (hsafe.trans htip)
    fun _ => ⟨finalized, rfl, .refl⟩
  exact hkept v hv (hkind.resolve_right fun hne => hne rfl)

end Consistent

/-! ## What was sent -/

/-- The payloads of input blocks. -/
def canonicalInputs (calls : List (Call H R)) : List (NewPayloadInput H R) :=
  calls.filterMap fun
    | .newPayload (.executionData _ _) _ => none
    | .newPayload input _ => some input
    | _ => none

def updates (calls : List (Call H R)) : List (Update H) :=
  calls.filterMap fun
    | .forkchoiceUpdated state kind => some ⟨state, kind⟩
    | _ => none

/-- The heads of the updates for input blocks. -/
def canonicalHeads (calls : List (Call H R)) : List H :=
  ((updates calls).filter fun u => u.kind ≠ .synthetic).map fun u => u.state.headBlockHash

/-- The requests for blocks of side forks, with the blocks that were built. -/
def builds (calls : List (Call H R)) : List (BuildBlockRequest H × H) :=
  calls.filterMap fun
    | .buildBlock request (.ok envelope) => some (request, envelope.blockHash)
    | _ => none

section Append

variable (calls calls' : List (Call H R))

@[simp] theorem canonicalInputs_append :
    canonicalInputs (calls ++ calls') = canonicalInputs calls ++ canonicalInputs calls' := by
  simp [canonicalInputs]

@[simp] theorem updates_append : updates (calls ++ calls') = updates calls ++ updates calls' := by
  simp [updates]

@[simp] theorem canonicalHeads_append :
    canonicalHeads (calls ++ calls') = canonicalHeads calls ++ canonicalHeads calls' := by
  simp [canonicalHeads]

@[simp] theorem builds_append : builds (calls ++ calls') = builds calls ++ builds calls' := by
  simp [builds]

end Append

theorem canonicalInputs_input (block : BlockLine H R) (wait : Bool) :
    canonicalInputs [.newPayload block.input wait] = [block.input] := by
  rw [BlockLine.input]
  split <;> rfl

/-! ## Side forks -/

namespace Replay

variable (env : Replay H R B)

/-- The blocks of a batch, one after the other, rebuilt on top of each other as far as the fork has
    come. -/
def SideFork : H → List (BlockLine H R) → List (BuildBlockRequest H × H) → Prop
  | _, _, [] => True
  | _, [], _ :: _ => False
  | parentHash, block :: blocks, (request, hash) :: rest =>
    env.buildRequest block parentHash = .ok request ∧ SideFork hash blocks rest

/-- A side fork of a batch begins at the parent of its first block. -/
def ForkOf (batch : List (BlockLine H R)) (fork : List (BuildBlockRequest H × H)) : Prop :=
  ∃ anchor, env.branchPoint batch = .ok anchor ∧ env.SideFork anchor batch fork

/-- The hash that the next block of a side fork is built on. -/
def forkTip (anchor : H) (fork : List (BuildBlockRequest H × H)) : H :=
  (fork.getLast?.map Prod.snd).getD anchor

theorem SideFork.push {env : Replay H R B} {anchor hash : H} {done rest : List (BlockLine H R)}
    {block : BlockLine H R} {fork : List (BuildBlockRequest H × H)} {request : BuildBlockRequest H}
    (h : env.SideFork anchor (done ++ block :: rest) fork) (hlength : fork.length = done.length)
    (hrequest : env.buildRequest block (forkTip anchor fork) = .ok request) :
    env.SideFork anchor (done ++ block :: rest) (fork ++ [(request, hash)]) := by
  induction done generalizing anchor fork with
  | nil =>
      obtain rfl := List.length_eq_zero_iff.1 hlength
      exact ⟨hrequest, by simp [SideFork]⟩
  | cons first done ih =>
      obtain ⟨⟨request₁, hash₁⟩, fork, rfl⟩ := List.exists_cons_of_length_eq_add_one hlength
      obtain ⟨hfirst, hfork⟩ := h
      refine ⟨hfirst, ih hfork (by simpa using hlength) ?_⟩
      have htip : forkTip anchor ((request₁, hash₁) :: fork) = forkTip hash₁ fork := by
        rw [forkTip, forkTip, List.getLast?_cons]
        cases fork.getLast? <;> rfl
      rwa [htip] at hrequest

/-- The input is a chain: each block decodes, and its parent is the block before it. -/
def Consecutive (parent : H → H → Prop) : H → List (BlockLine H R) → Prop
  | _, [] => True
  | before, block :: rest =>
    (∃ header body, env.splitBlockRlp block.raw = .ok (header, body) ∧
      header.parentHash = before) ∧ parent before block.key ∧ Consecutive parent block.key rest

/-- The last of these blocks, or the block before the first. -/
def tipOf (before : H) (done : List (BlockLine H R)) : H :=
  (done.getLast?.map (·.key)).getD before

@[simp] theorem tipOf_push (before : H) (done : List (BlockLine H R)) (block : BlockLine H R) :
    tipOf before (done ++ [block]) = block.key := by simp [tipOf]

theorem Consecutive.next {env : Replay H R B} {parent : H → H → Prop} {before : H}
    {done rest : List (BlockLine H R)} {block : BlockLine H R}
    (h : env.Consecutive parent before (done ++ block :: rest)) :
    (∃ header body, env.splitBlockRlp block.raw = .ok (header, body) ∧
      header.parentHash = tipOf before done) ∧ parent (tipOf before done) block.key := by
  induction done generalizing before with
  | nil => exact ⟨h.1, h.2.1⟩
  | cons first done ih =>
      have htip : tipOf before (first :: done) = tipOf first.key done := by
        rw [tipOf, tipOf, List.getLast?_cons]
        cases done.getLast? <;> rfl
      rw [htip]
      exact ih h.2.2

end Replay

end TxGen.SendBlocks
