/-
  DatacenterNetworking.Lib.CountMin

  A count-min sketch with conservative update: rows of counters, a cell of each row for
  every key, and the least of its cells as the estimate of a key.  Keys may share cells.

  A key is never counted by addition.  `raise` brings each of its cells up to a value,
  and a cell that is above it stays where it is.  So an estimate is exact after a raise
  (`estimate_raise`), and no raise of another key lowers it (`estimate_le_raise`).
-/

import Mathlib.Order.Lattice
import Mathlib.Order.MinMax
import Mathlib.Data.List.Basic

namespace DatacenterNetworking
namespace CountMin

variable {ρ κ β α : Type*} [LinearOrder α]

/-- The least of the cells of a key, and of `top`, which stands for no cell at all. -/
def estimate (rows : List ρ) (cell : ρ → κ → β) (top : α) (sketch : ρ → β → α) (k : κ) : α :=
  rows.foldl (fun least i => min (sketch i (cell i k)) least) top

/-- Every cell of a key is raised to a value. -/
def raise [DecidableEq ρ] [DecidableEq β] (rows : List ρ) (cell : ρ → κ → β)
    (sketch : ρ → β → α) (k : κ) (v : α) : ρ → β → α :=
  fun i j => if i ∈ rows ∧ j = cell i k then max (sketch i j) v else sketch i j

variable {rows : List ρ} {cell : ρ → κ → β} {top v : α} {sketch sketch' : ρ → β → α} {k : κ}

theorem le_estimate :
    v ≤ estimate rows cell top sketch k ↔ v ≤ top ∧ ∀ i ∈ rows, v ≤ sketch i (cell i k) := by
  simp only [estimate]
  induction rows generalizing top with
  | nil => exact ⟨fun h => ⟨h, nofun⟩, And.left⟩
  | cons i rows ih =>
    rw [List.foldl_cons, ih, le_min_iff, List.forall_mem_cons]
    exact ⟨fun ⟨⟨hi, htop⟩, hrows⟩ => ⟨htop, hi, hrows⟩,
      fun ⟨htop, hi, hrows⟩ => ⟨⟨hi, htop⟩, hrows⟩⟩

theorem estimate_le_top : estimate rows cell top sketch k ≤ top := (le_estimate.mp le_rfl).1

theorem estimate_le {i : ρ} (hi : i ∈ rows) :
    estimate rows cell top sketch k ≤ sketch i (cell i k) := (le_estimate.mp le_rfl).2 i hi

/-- Larger cells, larger estimates. -/
theorem estimate_mono (h : ∀ i j, sketch i j ≤ sketch' i j) :
    estimate rows cell top sketch k ≤ estimate rows cell top sketch' k :=
  le_estimate.mpr ⟨estimate_le_top, fun i hi => (estimate_le hi).trans (h i _)⟩

section Raise

variable [DecidableEq ρ] [DecidableEq β]

theorem le_raise (i : ρ) (j : β) : sketch i j ≤ raise rows cell sketch k v i j := by
  simp only [raise]
  split_ifs
  · exact le_max_left _ _
  · exact le_rfl

/-- A cell is as it was, or it is one that the raise brought to its value. -/
theorem raise_le (i : ρ) (j : β) :
    raise rows cell sketch k v i j = sketch i j ∨ raise rows cell sketch k v i j = v := by
  simp only [raise]
  split_ifs
  · exact max_choice _ _
  · exact Or.inl rfl

theorem estimate_le_raise (k' : κ) :
    estimate rows cell top sketch k' ≤ estimate rows cell top (raise rows cell sketch k v) k' :=
  estimate_mono le_raise

/-- The estimate of the key itself. -/
theorem estimate_raise (hv : v ≤ top) :
    estimate rows cell top (raise rows cell sketch k v) k =
      max (estimate rows cell top sketch k) v := by
  apply le_antisymm
  · -- with no cell both are `top`; otherwise the least cell decides
    rw [le_max_iff]
    by_contra hlt
    obtain ⟨hold, hnew⟩ := not_or.mp hlt
    have hle : estimate rows cell top (raise rows cell sketch k v) k ≤
        estimate rows cell top sketch k := by
      refine le_estimate.mpr ⟨estimate_le_top, fun i hi => ?_⟩
      have hcell : estimate rows cell top (raise rows cell sketch k v) k ≤
          raise rows cell sketch k v i (cell i k) := estimate_le hi
      have hcases : raise rows cell sketch k v i (cell i k) = sketch i (cell i k) ∨
          raise rows cell sketch k v i (cell i k) = v := raise_le i (cell i k)
      rcases hcases with hsame | hraised
      · exact hcell.trans hsame.le
      · exact absurd (hcell.trans hraised.le) hnew
    exact hold hle
  · refine max_le (estimate_le_raise k) (le_estimate.mpr ⟨hv, fun i hi => ?_⟩)
    rw [raise, if_pos ⟨hi, rfl⟩]
    exact le_max_right _ _

end Raise

end CountMin
end DatacenterNetworking
