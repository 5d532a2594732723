import TxGen.SendBlocks.Model

set_option autoImplicit false

/-! # The schedule of the side forks

What `ReorgState` does to a list of blocks, as a whole: the complete batches of `depth` blocks, with
`gap` blocks between them, and every block in its place. -/

namespace TxGen.SendBlocks

variable {α H R : Type}

/-- The batches of `depth` consecutive blocks, with `gap` blocks after each. -/
def batches (depth gap : ℕ) (blocks : List α) : List (List α) :=
  if 0 < depth ∧ depth ≤ blocks.length then
    blocks.take depth :: batches depth gap (blocks.drop (depth + gap))
  else []
termination_by blocks.length
decreasing_by
  rw [List.length_drop]
  omega

theorem batches_of_length_lt {depth gap : ℕ} {blocks : List α} (h : blocks.length < depth) :
    batches depth gap blocks = [] := by
  rw [batches, if_neg (by omega)]

theorem batches_append {depth gap : ℕ} {batch : List α} (hdepth : 0 < depth)
    (hlength : batch.length = depth) (rest : List α) :
    batches depth gap (batch ++ rest) = batch :: batches depth gap (rest.drop gap) := by
  rw [batches, if_pos ⟨hdepth, by simp [hlength]⟩, List.take_left' hlength, ← List.drop_drop,
    List.drop_left' hlength]

theorem length_of_mem_batches {depth gap : ℕ} {blocks batch : List α}
    (h : batch ∈ batches depth gap blocks) : batch.length = depth := by
  induction blocks using batches.induct depth gap with
  | case1 blocks hfull ih =>
      rw [batches, if_pos hfull] at h
      rcases List.mem_cons.1 h with rfl | h
      · exact List.length_take_of_le hfull.2
      · exact ih h
  | case2 blocks hshort =>
      rw [batches, if_neg hshort] at h
      cases h

namespace ReorgAction

/-- The blocks that an action submits. -/
def blocks : ReorgAction H R → List (BlockLine H R)
  | .pending => []
  | .canonical blocks => blocks
  | .batch blocks => blocks

/-- The batch of an action, if it is one. -/
def batched : ReorgAction H R → List (List (BlockLine H R))
  | .batch blocks => [blocks]
  | _ => []

end ReorgAction

namespace ReorgState

variable {state : ReorgState H R}

/-- A batch is not complete yet, and none is begun within a gap. -/
structure Valid (state : ReorgState H R) : Prop where
  incomplete : state.pending.length < state.depth
  gap : state.gapRemaining > 0 → state.pending = []

/-- The batches that are to come when these blocks are. -/
def plan (state : ReorgState H R) (rest : List (BlockLine H R)) : List (List (BlockLine H R)) :=
  batches state.depth state.gap (state.pending ++ rest.drop state.gapRemaining)

/-- One more block: it is kept or submitted, and the plan goes on. -/
structure Pushed (state : ReorgState H R) (block : BlockLine H R) (action : ReorgAction H R)
    (state' : ReorgState H R) : Prop where
  valid : state'.Valid
  same : state'.depth = state.depth ∧ state'.gap = state.gap
  blocks : action.blocks ++ state'.pending = state.pending ++ [block]
  plan : ∀ rest, action.batched ++ state'.plan rest = state.plan (block :: rest)

theorem push_spec (h : state.Valid) (block : BlockLine H R) :
    state.Pushed block (state.push block).1 (state.push block).2 := by
  have hdepth : 0 < state.depth := Nat.zero_lt_of_lt h.incomplete
  rw [push]
  split
  · -- within a gap
    rename_i hgap
    refine ⟨⟨h.incomplete, fun _ => h.gap hgap⟩, ⟨rfl, rfl⟩, ?_, fun rest => ?_⟩
    · simp [ReorgAction.blocks, h.gap hgap]
    · obtain ⟨n, hn⟩ := Nat.exists_eq_succ_of_ne_zero (Nat.pos_iff_ne_zero.1 hgap)
      simp [ReorgAction.batched, ReorgState.plan, hn]
  · rename_i hgap
    have hzero : state.gapRemaining = 0 := by omega
    dsimp only
    split
    · rename_i hshort
      refine ⟨⟨hshort, fun hpos => absurd hpos hgap⟩, ⟨rfl, rfl⟩, rfl, fun rest => ?_⟩
      simp [ReorgAction.batched, ReorgState.plan, hzero]
    · -- the batch is complete
      rename_i hfull
      have hlength : (state.pending ++ [block]).length = state.depth := by
        have hincomplete := h.incomplete
        rw [List.length_append, List.length_singleton] at hfull ⊢
        omega
      refine ⟨⟨hdepth, fun _ => rfl⟩, ⟨rfl, rfl⟩, ?_, fun rest => ?_⟩
      · simp [ReorgAction.blocks]
      · have hplan := @batches_append _ _ state.gap _ hdepth hlength rest
        rw [List.append_assoc, List.singleton_append] at hplan
        simpa [ReorgAction.batched, ReorgState.plan, hzero] using hplan.symm

/-- What is pending at the end makes no batch. -/
theorem plan_nil (h : state.Valid) : state.plan [] = [] := by
  rw [plan, List.drop_nil, List.append_nil]
  exact batches_of_length_lt h.incomplete

end ReorgState

end TxGen.SendBlocks
