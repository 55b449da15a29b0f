/-
  DatacenterNetworking.Lib.Interpolation

  Linear interpolation in a table of keys and values.  The entries around `x` are
  those the source of a lookup by `upper_bound` and `prev` dereferences: the first
  entry above `x` and the one before it.

  The interpolated value lies between the two values and grows with `x`
  (`lerp_mem`, `lerp_le_lerp`); the entries around a larger `x` are the same ones,
  or come later (`around_mono`).
-/

import Mathlib.Algebra.Order.Field.Basic

namespace DatacenterNetworking

section Lerp

variable {K : Type*} [Field K] [LinearOrder K] [IsStrictOrderedRing K]

/-- The value at `x` on the line through two points. -/
def lerp (l r : K × K) (x : K) : K := l.2 + (r.2 - l.2) * (x - l.1) / (r.1 - l.1)

variable {l r : K × K} {x y : K}

theorem lerp_mem (hval : l.2 ≤ r.2) (hl : l.1 ≤ x) (hr : x < r.1) :
    l.2 ≤ lerp l r x ∧ lerp l r x ≤ r.2 := by
  have hwidth : 0 < r.1 - l.1 := sub_pos.mpr (hl.trans_lt hr)
  have hrise : 0 ≤ r.2 - l.2 := sub_nonneg.mpr hval
  have hlow : 0 ≤ (r.2 - l.2) * (x - l.1) / (r.1 - l.1) :=
    div_nonneg (mul_nonneg hrise (sub_nonneg.mpr hl)) hwidth.le
  have hhigh : (r.2 - l.2) * (x - l.1) / (r.1 - l.1) ≤ r.2 - l.2 := by
    rw [div_le_iff₀ hwidth]
    exact mul_le_mul_of_nonneg_left (sub_le_sub_right hr.le _) hrise
  exact ⟨le_add_of_nonneg_right hlow, le_sub_iff_add_le'.mp hhigh⟩

theorem lerp_le_lerp (hval : l.2 ≤ r.2) (hkey : l.1 ≤ r.1) (hxy : x ≤ y) :
    lerp l r x ≤ lerp l r y := by
  have hrise : 0 ≤ r.2 - l.2 := sub_nonneg.mpr hval
  have hstep : (r.2 - l.2) * (x - l.1) ≤ (r.2 - l.2) * (y - l.1) :=
    mul_le_mul_of_nonneg_left (sub_le_sub_right hxy _) hrise
  exact add_le_add_right (div_le_div_of_nonneg_right hstep (sub_nonneg.mpr hkey)) _

end Lerp

section Around

variable {K V : Type*} [LinearOrder K]

/-- `upper_bound`: the index of the first key above `x`, the length when there is none. -/
def upperBound (table : List (K × V)) (x : K) : Nat := table.findIdx fun e => x < e.1

/-- The entry at `upper_bound` and the one before it, when both exist. -/
def around (table : List (K × V)) (x : K) : Option ((K × V) × (K × V)) :=
  table[upperBound table x]?.bind fun r =>
    if upperBound table x = 0 then none
    else table[upperBound table x - 1]?.map fun l => (l, r)

variable {table : List (K × V)} {x y : K} {l r l' r' : K × V}

/-- Neighbours, with `x` from the first key on and below the second. -/
structure Around (table : List (K × V)) (x : K) (l r : K × V) (i : Nat) : Prop where
  left : table[i]? = some l
  right : table[i + 1]? = some r
  le : l.1 ≤ x
  lt : x < r.1

theorem around_spec (h : around table x = some (l, r)) : ∃ i, Around table x l r i := by
  obtain ⟨r', hr, h⟩ := Option.bind_eq_some_iff.mp h
  split_ifs at h with hzero
  obtain ⟨l', hl, heq⟩ := Option.map_eq_some_iff.mp h
  cases heq
  obtain ⟨i, hi⟩ := Nat.exists_eq_succ_of_ne_zero hzero
  rw [hi, Nat.succ_eq_add_one, Nat.add_sub_cancel] at hl
  refine ⟨i, hl, (congrArg (table[·]?) hi).symm.trans hr, ?_, ?_⟩
  · -- `i` comes before the first key above `x`
    obtain ⟨hlen, hget⟩ := List.getElem?_eq_some_iff.mp hl
    have hnot := @List.not_of_lt_findIdx _ (fun e : K × V => decide (x < e.1)) table i
      (by rw [← upperBound, hi]; exact Nat.lt_succ_self i)
    rw [hget] at hnot
    exact not_lt.mp (by simpa using hnot)
  · have habove := List.findIdx_of_getElem?_eq_some hr
    simpa using habove

/-- Both exist when `x` is from the first key on and below another. -/
theorem exists_around {e : K × V} (hfirst : table.head? = some e) (hle : e.1 ≤ x)
    (habove : ∃ e' ∈ table, x < e'.1) : ∃ l r, around table x = some (l, r) := by
  have hlt : upperBound table x < table.length :=
    List.findIdx_lt_length_of_exists (by simpa using habove)
  have hne : upperBound table x ≠ 0 := by
    obtain ⟨rest, rfl⟩ := List.head?_eq_some_iff.mp hfirst
    rw [upperBound, List.findIdx_cons, decide_eq_false (not_lt.mpr hle)]
    exact Nat.succ_ne_zero _
  refine ⟨table[upperBound table x - 1], table[upperBound table x], ?_⟩
  rw [around, List.getElem?_eq_getElem hlt, Option.bind_some, if_neg hne,
    List.getElem?_eq_getElem (by omega), Option.map_some]

/-- There is no entry at `upper_bound` from the last key on. -/
theorem around_eq_none (h : ∀ e ∈ table, e.1 ≤ x) : around table x = none := by
  have hend : upperBound table x = table.length :=
    List.findIdx_eq_length_of_false fun e he => decide_eq_false (not_lt.mpr (h e he))
  rw [around, hend, List.getElem?_eq_none le_rfl]
  rfl

theorem rel_of_index_le {α : Type*} {R : α → α → Prop} (hrefl : ∀ e, R e e) {l : List α}
    (hl : l.Pairwise R) {a b : Nat} {e e' : α} (ha : l[a]? = some e) (hb : l[b]? = some e')
    (hab : a ≤ b) : R e e' := by
  obtain ⟨hla, rfl⟩ := List.getElem?_eq_some_iff.mp ha
  obtain ⟨hlb, rfl⟩ := List.getElem?_eq_some_iff.mp hb
  rcases Nat.lt_or_eq_of_le hab with hlt | rfl
  · exact List.pairwise_iff_getElem.mp hl a b hla hlb hlt
  · exact hrefl _

/-- A larger `x` has the same neighbours, or both come after the former ones. -/
theorem around_mono {R : V → V → Prop} (hrefl : ∀ v, R v v) {i j : Nat}
    (hkeys : table.Pairwise fun e e' => e.1 < e'.1) (hvals : table.Pairwise fun e e' => R e.2 e'.2)
    (hi : Around table x l r i) (hj : Around table y l' r' j) (hxy : x ≤ y) :
    (l = l' ∧ r = r') ∨ R r.2 l'.2 := by
  have hle : i ≤ j := by
    by_contra hlt
    have hkey : r'.1 ≤ l.1 :=
      rel_of_index_le (R := fun e e' => e.1 ≤ e'.1) (fun _ => le_rfl) (hkeys.imp fun h => h.le)
        hj.right hi.left (by omega)
    exact absurd (hj.lt.trans_le (hkey.trans (hi.le.trans hxy))) (lt_irrefl y)
  rcases Nat.lt_or_eq_of_le hle with hlt | rfl
  · exact Or.inr (rel_of_index_le (R := fun e e' => R e.2 e'.2) (fun _ => hrefl _) hvals hi.right
      hj.left hlt)
  · exact Or.inl ⟨Option.some.inj (hi.left.symm.trans hj.left),
      Option.some.inj (hi.right.symm.trans hj.right)⟩

end Around

end DatacenterNetworking
