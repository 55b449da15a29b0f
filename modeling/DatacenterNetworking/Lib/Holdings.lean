/-
  DatacenterNetworking.Lib.Holdings

  What a family of keepers holds together, when one of them changes.  Holdings are
  values of a commutative monoid: multisets of things, or their numbers.

    * `sum_update` — the keepers are indexed by numbers;
    * `sum_set`    — the keepers are a list.

  Both say that the new total with what the keeper had is the old total with what it
  has now.
-/

import Mathlib.Algebra.BigOperators.Group.Finset.Basic
import Mathlib.Algebra.BigOperators.Group.List.Basic
import Mathlib.Tactic.Abel

namespace DatacenterNetworking

variable {α β M : Type*} [AddCommMonoid M]

/-- One of `n` keepers changes. -/
theorem sum_update {n k : Nat} (hk : k < n) (held : α → M) (f : Nat → α) (a : α) :
    ∑ i ∈ Finset.range n, held (Function.update f k a i) + held (f k) =
      ∑ i ∈ Finset.range n, held (f i) + held a := by
  have hmem : k ∈ Finset.range n := Finset.mem_range.mpr hk
  rw [← Finset.add_sum_erase _ _ hmem, ← Finset.add_sum_erase _ (fun i => held (f i)) hmem]
  have hrest : ∑ i ∈ (Finset.range n).erase k, held (Function.update f k a i) =
      ∑ i ∈ (Finset.range n).erase k, held (f i) := by
    apply Finset.sum_congr rfl
    intro i hi
    rw [Function.update_of_ne (Finset.ne_of_mem_erase hi)]
  rw [hrest, Function.update_self]
  abel

/-- One keeper of a list changes. -/
theorem sum_set (held : β → M) {l : List β} {i : Nat} {b : β} (hb : l[i]? = some b) (c : β) :
    ((l.set i c).map held).sum + held b = (l.map held).sum + held c := by
  induction l generalizing i with
  | nil => simp at hb
  | cons x l ih =>
    cases i with
    | zero =>
      cases hb
      simp only [List.set_cons_zero, List.map_cons, List.sum_cons]
      abel
    | succ i =>
      have hrest := ih (i := i) hb
      simp only [List.set_cons_succ, List.map_cons, List.sum_cons]
      rw [add_assoc, hrest]
      abel

end DatacenterNetworking
