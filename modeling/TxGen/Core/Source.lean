import TxGen.Core.GeneratedTx

set_option autoImplicit false

/-! # Transaction sources

A source yields one result per line of its input: a parsed transaction, or the error the line is
refused with. What is read is tagged with the number of its line, so that two equal transactions of
one input stay apart. A read that is cancelled has consumed nothing. -/

namespace TxGen

/-- What `nextTx` makes of one input line. -/
abbrev Line := Except String GeneratedTx

/-- A transaction and the number of the line it was read from. -/
structure Read where
  line : ℕ
  tx : GeneratedTx
deriving DecidableEq

/-- The unread part of an input; `line` is the number of its first line. -/
structure TxSource where
  line : ℕ := 0
  lines : List Line
deriving DecidableEq

/-- Get the next transaction; `none` when the source is exhausted. -/
def TxSource.nextTx (source : TxSource) : Except String (Option Read) × TxSource :=
  match source.lines with
  | [] => (.ok none, source)
  | .ok tx :: rest => (.ok (some ⟨source.line, tx⟩), ⟨source.line + 1, rest⟩)
  | .error e :: rest => (.error e, ⟨source.line + 1, rest⟩)

/-- The workload transactions of `lines`, numbered from `line`. -/
def workloadFrom : ℕ → List Line → List Read
  | _, [] => []
  | line, .ok tx :: rest =>
    if tx.phase = .workload then ⟨line, tx⟩ :: workloadFrom (line + 1) rest
    else workloadFrom (line + 1) rest
  | line, .error _ :: rest => workloadFrom (line + 1) rest

/-- The workload transactions that are still to be read. -/
def TxSource.workload (source : TxSource) : List Read :=
  workloadFrom source.line source.lines

theorem workloadFrom_line_le {lines : List Line} {line : ℕ} :
    ∀ r ∈ workloadFrom line lines, line ≤ r.line := by
  induction lines generalizing line with
  | nil => simp [workloadFrom]
  | cons x rest ih =>
      have hrest : ∀ r ∈ workloadFrom (line + 1) rest, line ≤ r.line :=
        fun r hr => (Nat.le_succ line).trans (ih r hr)
      cases x with
      | error e => exact hrest
      | ok tx =>
          simp only [workloadFrom]
          split
          · simpa using hrest
          · exact hrest

/-- No transaction of the input is read twice. -/
theorem nodup_workloadFrom {lines : List Line} {line : ℕ} : (workloadFrom line lines).Nodup := by
  induction lines generalizing line with
  | nil => exact List.nodup_nil
  | cons x rest ih =>
      cases x with
      | error e => exact ih
      | ok tx =>
          simp only [workloadFrom]
          split
          · refine List.nodup_cons.2 ⟨fun hmem => ?_, ih⟩
            exact absurd (workloadFrom_line_le _ hmem) (Nat.not_succ_le_self line)
          · exact ih

/-- A workload transaction that is read was the first one left. -/
theorem TxSource.nextTx_workload {source : TxSource} {r : Read}
    (h : source.nextTx.1 = .ok (some r)) (hr : r.tx.phase = .workload) :
    source.workload = r :: source.nextTx.2.workload := by
  obtain ⟨line, lines⟩ := source
  cases lines with
  | nil => simp [nextTx] at h
  | cons x rest =>
      cases x with
      | error e => simp [nextTx] at h
      | ok tx =>
          simp only [nextTx, Except.ok.injEq, Option.some.injEq] at h
          subst h
          simp only [workload, nextTx, workloadFrom, if_pos hr]

/-- Any other read leaves the workload transactions that are left. -/
theorem TxSource.nextTx_other {source : TxSource}
    (h : ∀ r, source.nextTx.1 = .ok (some r) → r.tx.phase ≠ .workload) :
    source.nextTx.2.workload = source.workload := by
  obtain ⟨line, lines⟩ := source
  cases lines with
  | nil => rfl
  | cons x rest =>
      cases x with
      | error e => rfl
      | ok tx =>
          have hphase : tx.phase ≠ .workload := h ⟨line, tx⟩ rfl
          simp only [workload, nextTx, workloadFrom, if_neg hphase]

end TxGen
