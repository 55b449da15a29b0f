/-
  DatacenterNetworking.Lib.LeastTies

  A scan for the least value of a function and all the elements that attain it:
  an element that ties with the least so far joins the list, one that is below
  it starts the list again.

  `Leads f seen best` says that `best` is right about the elements seen; a round
  preserves it, hence a scan of any list does.
-/

import Mathlib.Order.Lattice

namespace DatacenterNetworking

variable {ι α : Type*} [LinearOrder α] {f : ι → α}

/-- One round: the least value so far and the elements that attain it, after `i`. -/
def scanLeast (f : ι → α) (best : α × List ι) (i : ι) : α × List ι :=
  if f i = best.1 then (best.1, best.2 ++ [i])
  else if f i < best.1 then (f i, [i])
  else best

/-- `best` holds the least value of `f` on `seen` and, in order, the elements that attain it. -/
structure Leads (f : ι → α) (seen : List ι) (best : α × List ι) : Prop where
  least : ∀ i ∈ seen, best.1 ≤ f i
  ties : best.2 = seen.filter fun i => f i = best.1
  found : best.2 ≠ []

theorem leads_singleton (f : ι → α) (i : ι) : Leads f [i] (f i, [i]) where
  least := fun j hj => by rw [List.mem_singleton.mp hj]
  ties := by simp
  found := List.cons_ne_nil _ _

theorem leads_scanLeast {seen : List ι} {best : α × List ι} (h : Leads f seen best) (i : ι) :
    Leads f (seen ++ [i]) (scanLeast f best i) := by
  -- a bound of what was seen that also bounds `f i` bounds all
  have hall : ∀ m, m ≤ f i → (∀ j ∈ seen, m ≤ f j) → ∀ j ∈ seen ++ [i], m ≤ f j := by
    intro m hi hseen j hj
    rcases List.mem_append.mp hj with hj | hj
    · exact hseen j hj
    · rw [List.mem_singleton.mp hj]
      exact hi
  rw [scanLeast]
  split_ifs with htie hless
  · -- `i` joins the others
    refine ⟨hall _ htie.ge h.least, ?_, List.append_ne_nil_of_left_ne_nil h.found _⟩
    simp only [List.filter_append, ← h.ties, List.filter_cons, htie, decide_true, if_true,
      List.filter_nil]
  · -- none of the elements seen attains the new least value
    refine ⟨hall _ le_rfl fun j hj => hless.le.trans (h.least j hj), ?_, List.cons_ne_nil _ _⟩
    have hnone : (seen.filter fun j => f j = f i) = [] := by
      refine List.filter_eq_nil_iff.mpr fun j hj => ?_
      rw [decide_eq_true_iff]
      exact (hless.trans_le (h.least j hj)).ne'
    simp only [List.filter_append, hnone, List.filter_cons, decide_true, if_true, List.filter_nil,
      List.nil_append]
  · have hmore : best.1 < f i := lt_of_le_of_ne (not_lt.mp hless) (Ne.symm htie)
    refine ⟨hall _ hmore.le h.least, ?_, h.found⟩
    simp only [List.filter_append, ← h.ties, List.filter_cons, htie, decide_false, List.filter_nil,
      List.append_nil, Bool.false_eq_true, if_false]

/-- A scan of the rest is right about the whole list. -/
theorem leads_foldl {seen : List ι} {best : α × List ι} (h : Leads f seen best) (rest : List ι) :
    Leads f (seen ++ rest) (rest.foldl (scanLeast f) best) := by
  induction rest generalizing seen best with
  | nil =>
    rw [List.append_nil]
    exact h
  | cons i rest ih =>
    rw [List.foldl_cons, List.append_cons]
    exact ih (leads_scanLeast h i)

/-- The elements found are those at which `f` is least. -/
theorem Leads.mem_iff {seen : List ι} {best : α × List ι} (h : Leads f seen best) {i : ι} :
    i ∈ best.2 ↔ i ∈ seen ∧ ∀ j ∈ seen, f i ≤ f j := by
  obtain ⟨k, hk⟩ := List.exists_mem_of_ne_nil _ h.found
  have hmem : ∀ j, j ∈ best.2 ↔ j ∈ seen ∧ f j = best.1 := by
    intro j
    rw [h.ties, List.mem_filter, decide_eq_true_iff]
  obtain ⟨hkseen, hkleast⟩ := (hmem k).mp hk
  rw [hmem]
  constructor
  · rintro ⟨hseen, hi⟩
    exact ⟨hseen, fun j hj => hi.trans_le (h.least j hj)⟩
  · rintro ⟨hseen, hi⟩
    exact ⟨hseen, le_antisymm ((hi k hkseen).trans_eq hkleast) (h.least i hseen)⟩

/-- The elements found are no more than the elements seen. -/
theorem Leads.length_le {seen : List ι} {best : α × List ι} (h : Leads f seen best) :
    best.2.length ≤ seen.length := by
  rw [h.ties]
  exact List.length_filter_le _ _

end DatacenterNetworking
