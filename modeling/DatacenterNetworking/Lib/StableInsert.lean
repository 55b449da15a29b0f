/-
  DatacenterNetworking.Lib.StableInsert

  A sorted list with stable insertion: what `std::multiset` and `std::multimap`
  are when only their order of traversal matters.  A new element goes after
  every element whose key is not larger (`List.orderedInsert` for the strict
  order of the keys), so elements of equal key keep their order of insertion.
-/

import Mathlib.Data.List.Sort

namespace DatacenterNetworking

variable {α κ : Type*} [LinearOrder κ] (key : α → κ)

/-- Insert `x` after every element whose key is at most its own. -/
def insertByKey (x : α) (l : List α) : List α :=
  l.orderedInsert (fun a b => key a < key b) x

variable {key}

@[simp] theorem insertByKey_nil (x : α) : insertByKey key x [] = [x] := rfl

theorem insertByKey_cons (x y : α) (l : List α) :
    insertByKey key x (y :: l) =
      if key x < key y then x :: y :: l else y :: insertByKey key x l := rfl

@[simp] theorem mem_insertByKey {x a : α} {l : List α} :
    a ∈ insertByKey key x l ↔ a = x ∨ a ∈ l := List.mem_orderedInsert _

theorem perm_insertByKey (x : α) (l : List α) : (insertByKey key x l).Perm (x :: l) :=
  List.perm_orderedInsert _ x l

/-- Insertion keeps the list sorted by key. -/
theorem pairwise_insertByKey {x : α} {l : List α} (h : l.Pairwise fun a b => key a ≤ key b) :
    (insertByKey key x l).Pairwise fun a b => key a ≤ key b := by
  induction l with
  | nil => exact List.pairwise_singleton _ _
  | cons y l ih =>
    obtain ⟨hy, hl⟩ := List.pairwise_cons.mp h
    rw [insertByKey_cons]
    split_ifs with hlt
    · refine List.pairwise_cons.mpr ⟨fun z hz => ?_, h⟩
      rcases List.mem_cons.mp hz with rfl | hz
      · exact hlt.le
      · exact hlt.le.trans (hy z hz)
    · refine List.pairwise_cons.mpr ⟨fun z hz => ?_, ih hl⟩
      rcases mem_insertByKey.mp hz with rfl | hz
      · exact not_lt.mp hlt
      · exact hy z hz

/-- A relation between earlier and later elements, when `x` has it to those before its place
    and from those after. -/
theorem pairwise_insertByKey_of {R : α → α → Prop} {x : α} {l : List α} (h : l.Pairwise R)
    (hbefore : ∀ y ∈ l, key y ≤ key x → R y x) (hafter : ∀ y ∈ l, key x < key y → R x y)
    (hsorted : l.Pairwise fun a b => key a ≤ key b) :
    (insertByKey key x l).Pairwise R := by
  -- along the list, up to the first larger key
  induction l with
  | nil => exact List.pairwise_singleton _ _
  | cons y l ih =>
    obtain ⟨hy, hl⟩ := List.pairwise_cons.mp h
    obtain ⟨hle, hsorted⟩ := List.pairwise_cons.mp hsorted
    rw [insertByKey_cons]
    split_ifs with hlt
    · refine List.pairwise_cons.mpr ⟨fun z hz => ?_, h⟩
      rcases List.mem_cons.mp hz with rfl | hz'
      · exact hafter z hz hlt
      · exact hafter z hz (hlt.trans_le (hle z hz'))
    · have hrest := ih hl (fun z hz => hbefore z (List.mem_cons_of_mem _ hz))
        (fun z hz => hafter z (List.mem_cons_of_mem _ hz)) hsorted
      refine List.pairwise_cons.mpr ⟨fun z hz => ?_, hrest⟩
      rcases mem_insertByKey.mp hz with rfl | hz
      · exact hbefore y List.mem_cons_self (not_lt.mp hlt)
      · exact hy z hz

/-- The new element is the last one, or the last one stays and has a larger key. -/
theorem getLast?_insertByKey {x : α} {l : List α} (h : l.Pairwise fun a b => key a ≤ key b) :
    insertByKey key x l = l ++ [x] ∨
      ∃ y ∈ l, key x < key y ∧ (insertByKey key x l).getLast? = some y := by
  -- the last element is `x` unless some key is larger
  induction l with
  | nil => exact Or.inl rfl
  | cons y l ih =>
    obtain ⟨hy, hl⟩ := List.pairwise_cons.mp h
    rw [insertByKey_cons]
    split_ifs with hlt
    · have hne : y :: l ≠ [] := List.cons_ne_nil y l
      have hmem := List.getLast_mem hne
      refine Or.inr ⟨(y :: l).getLast hne, hmem, ?_, ?_⟩
      · rcases List.mem_cons.mp hmem with hlast | hlast
        · rw [hlast]
          exact hlt
        · exact hlt.trans_le (hy _ hlast)
      · rw [List.getLast?_cons_cons, List.getLast?_eq_some_getLast hne]
    · rcases ih hl with hlast | ⟨z, hz, hkey, hlast⟩
      · exact Or.inl (by rw [hlast, List.cons_append])
      · refine Or.inr ⟨z, List.mem_cons_of_mem _ hz, hkey, ?_⟩
        rw [List.getLast?_cons, hlast]
        rfl

/-- A selection that leaves `x` out does not see its insertion. -/
theorem filter_insertByKey_of_not {p : α → Bool} {x : α} (hx : p x = false) (l : List α) :
    (insertByKey key x l).filter p = l.filter p := by
  induction l with
  | nil => simp [hx]
  | cons y l ih =>
    rw [insertByKey_cons]
    split_ifs with hlt
    · rw [List.filter_cons_of_neg (by simp [hx])]
    · simp only [List.filter_cons, ih]

/-- A selection in which `x` has the largest key sees it appended. -/
theorem filter_insertByKey_of_le {p : α → Bool} {x : α} {l : List α} (hx : p x = true)
    (hsorted : l.Pairwise fun a b => key a ≤ key b)
    (hle : ∀ y ∈ l, p y = true → key y ≤ key x) :
    (insertByKey key x l).filter p = l.filter p ++ [x] := by
  -- along the list, up to the place where `x` goes in
  induction l with
  | nil => simp [hx]
  | cons y l ih =>
    obtain ⟨hy, hl⟩ := List.pairwise_cons.mp hsorted
    rw [insertByKey_cons]
    split_ifs with hlt
    · -- everything from `y` on has a larger key than `x`, so nothing of it is selected
      have hnone : (y :: l).filter p = [] := by
        refine List.filter_eq_nil_iff.mpr fun z hz hpz => ?_
        have hyz : key y ≤ key z := by
          rcases List.mem_cons.mp hz with rfl | hz
          · exact le_rfl
          · exact hy z hz
        exact absurd (hle z hz hpz) (not_le.mpr (hlt.trans_le hyz))
      rw [List.filter_cons_of_pos hx, hnone]
      rfl
    · have hrec := ih hl fun z hz => hle z (List.mem_cons_of_mem _ hz)
      cases hpy : p y with
      | true => simp only [List.filter_cons, hpy, if_true, hrec, List.cons_append]
      | false => simp [hpy, hrec]

end DatacenterNetworking
