/-
  DatacenterNetworking.Lib.Word

  Sums and differences of unsigned words of `w` bits, as natural numbers.

  A word that keeps a count holds the count modulo `2 ^ w`, whatever wrapped on the way
  (`add_mod`, `sub_mod`).  It is the count itself while that is below `2 ^ w`
  (`add_of_lt`, `sub_of_le`), and what was added can always be taken back (`sub_add`).
-/

import Mathlib.Algebra.Order.Ring.Nat

namespace DatacenterNetworking
namespace Word

/-- `a + b` in `w` bits. -/
def add (w a b : Nat) : Nat := (a + b) % 2 ^ w

/-- `a - b` in `w` bits. -/
def sub (w a b : Nat) : Nat := (a + (2 ^ w - b % 2 ^ w)) % 2 ^ w

variable {w a b n : Nat}

theorem add_lt : add w a b < 2 ^ w := Nat.mod_lt _ (Nat.two_pow_pos w)

theorem sub_lt : sub w a b < 2 ^ w := Nat.mod_lt _ (Nat.two_pow_pos w)

theorem add_of_lt (h : a + b < 2 ^ w) : add w a b = a + b := Nat.mod_eq_of_lt h

/-- A word counts up modulo `2 ^ w`. -/
theorem add_mod : add w (n % 2 ^ w) b = (n + b) % 2 ^ w := Nat.mod_add_mod _ _ _

/-- A word counts down modulo `2 ^ w`. -/
theorem sub_mod (h : b ≤ n) : sub w (n % 2 ^ w) b = (n - b) % 2 ^ w := by
  have hlt : b % 2 ^ w < 2 ^ w := Nat.mod_lt _ (Nat.two_pow_pos w)
  have hb := Nat.mod_add_div b (2 ^ w)
  -- `n` and the difference are apart by `b`, which is `b % 2 ^ w` and whole turns
  have hsum : n + (2 ^ w - b % 2 ^ w) = n - b + 2 ^ w * (b / 2 ^ w + 1) := by
    rw [Nat.mul_add, Nat.mul_one]
    omega
  rw [sub, Nat.mod_add_mod, hsum, Nat.add_mul_mod_self_left]

theorem sub_of_le (hle : b ≤ a) (hlt : a < 2 ^ w) : sub w a b = a - b := by
  have hmod := sub_mod (w := w) hle
  rw [Nat.mod_eq_of_lt hlt, Nat.mod_eq_of_lt (by omega)] at hmod
  exact hmod

theorem sub_add (h : a < 2 ^ w) : sub w (add w a b) b = a := by
  rw [add, sub_mod (Nat.le_add_left b a), Nat.add_sub_cancel, Nat.mod_eq_of_lt h]

/-- Taking nothing away leaves a word as it is. -/
theorem sub_zero (h : a < 2 ^ w) : sub w a 0 = a := sub_of_le (Nat.zero_le a) h

/-- Taking nothing away makes nothing larger. -/
theorem sub_zero_le (a : Nat) : sub w a 0 ≤ a := by
  rw [sub, Nat.zero_mod, Nat.sub_zero, Nat.add_mod_right]
  exact Nat.mod_le _ _

end Word
end DatacenterNetworking
