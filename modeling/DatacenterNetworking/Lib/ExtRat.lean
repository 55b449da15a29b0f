/-
  DatacenterNetworking.Lib.ExtRat

  Floating-point arithmetic without rounding: the rationals, the two infinities and NaN.

  There is one zero, and it has no sign: a quotient by zero is infinite, with the sign of what
  is divided, and zero divided by zero is NaN.  A comparison with NaN is false.
-/

import Mathlib.Algebra.Order.Ring.Rat

namespace DatacenterNetworking

/-- What a floating-point variable holds, when nothing is rounded. -/
inductive ExtRat where
  | nan
  | negInf
  | fin (q : Rat)
  | posInf
  deriving DecidableEq

namespace ExtRat

/-- Infinity times `q`. -/
def infinite (q : Rat) : ExtRat := if q = 0 then .nan else if 0 < q then .posInf else .negInf

def neg : ExtRat → ExtRat
  | .nan => .nan
  | .negInf => .posInf
  | .fin q => .fin (-q)
  | .posInf => .negInf

def add : ExtRat → ExtRat → ExtRat
  | .fin a, .fin b => .fin (a + b)
  | .nan, _ | _, .nan => .nan
  | .posInf, .negInf | .negInf, .posInf => .nan
  | .posInf, _ | _, .posInf => .posInf
  | .negInf, _ | _, .negInf => .negInf

def mul : ExtRat → ExtRat → ExtRat
  | .fin a, .fin b => .fin (a * b)
  | .nan, _ | _, .nan => .nan
  | .posInf, .fin q | .fin q, .posInf => infinite q
  | .negInf, .fin q | .fin q, .negInf => infinite (-q)
  | .posInf, .posInf | .negInf, .negInf => .posInf
  | .posInf, .negInf | .negInf, .posInf => .negInf

/-- The quotient by a rational, which is all that is divided by here. -/
def div : ExtRat → Rat → ExtRat
  | .fin a, b => if b = 0 then infinite a else .fin (a / b)
  | .nan, _ => .nan
  | .posInf, b => if b = 0 then .posInf else infinite b
  | .negInf, b => if b = 0 then .negInf else infinite (-b)

/-- `a < b`. -/
def below : ExtRat → ExtRat → Bool
  | .fin a, .fin b => decide (a < b)
  | .negInf, .fin _ | .negInf, .posInf | .fin _, .posInf => true
  | _, _ => false

instance : Neg ExtRat := ⟨neg⟩

instance : Add ExtRat := ⟨add⟩

instance : Sub ExtRat := ⟨fun a b => a + -b⟩

instance : Mul ExtRat := ⟨mul⟩

instance : HDiv ExtRat Rat ExtRat := ⟨div⟩

instance : LT ExtRat := ⟨fun a b => below a b = true⟩

instance (a b : ExtRat) : Decidable (a < b) := inferInstanceAs (Decidable (below a b = true))

/-! ## Rationals -/

variable {a b : Rat}

theorem fin_add : (.fin a + .fin b : ExtRat) = .fin (a + b) := rfl

theorem fin_sub : (.fin a - .fin b : ExtRat) = .fin (a - b) :=
  congrArg ExtRat.fin (sub_eq_add_neg a b).symm

theorem fin_mul : (.fin a * .fin b : ExtRat) = .fin (a * b) := rfl

theorem fin_lt : (.fin a : ExtRat) < .fin b ↔ a < b := decide_eq_true_iff

/-- A quotient of rationals is NaN if both are zero. -/
theorem fin_div_eq_nan : fin a / b = nan ↔ b = 0 ∧ a = 0 := by
  show (if b = 0 then infinite a else .fin (a / b)) = .nan ↔ _
  by_cases hb : b = 0
  · rw [if_pos hb, infinite]
    split_ifs with ha hpos <;> simp [hb, ha]
  · rw [if_neg hb]
    simp [hb]

/-! ## NaN -/

variable {x : ExtRat}

theorem nan_add : .nan + x = .nan := by cases x <;> rfl

theorem add_nan : x + .nan = .nan := by cases x <;> rfl

theorem mul_nan : x * .nan = .nan := by cases x <;> rfl

theorem nan_mul : .nan * x = .nan := by cases x <;> rfl

theorem sub_nan : x - .nan = .nan := add_nan

theorem not_nan_lt : ¬ .nan < x := by
  cases x
  all_goals exact Bool.false_ne_true

theorem not_lt_nan : ¬ x < .nan := by
  cases x
  all_goals exact Bool.false_ne_true

/-! ## Clipping -/

/-- `x`, cut to the interval from `lo` to `hi`; NaN passes. -/
def clip (lo hi : Rat) (x : ExtRat) : ExtRat :=
  if x < .fin lo then .fin lo else if .fin hi < x then .fin hi else x

theorem clip_nan {lo hi : Rat} : clip lo hi .nan = .nan := by
  rw [clip, if_neg not_nan_lt, if_neg not_lt_nan]

/-- Everything else is a rational of the interval. -/
theorem exists_clip {lo hi : Rat} (hle : lo ≤ hi) (hx : x ≠ .nan) :
    ∃ q, clip lo hi x = .fin q ∧ lo ≤ q ∧ q ≤ hi := by
  rw [clip]
  split_ifs with hlo hhi
  · exact ⟨lo, rfl, le_rfl, hle⟩
  · exact ⟨hi, rfl, hle, le_rfl⟩
  · cases x with
    | nan => exact absurd rfl hx
    | negInf => exact absurd rfl hlo
    | fin q => exact ⟨q, rfl, not_lt.mp (mt fin_lt.mpr hlo), not_lt.mp (mt fin_lt.mpr hhi)⟩
    | posInf => exact absurd rfl hhi

end ExtRat
end DatacenterNetworking
