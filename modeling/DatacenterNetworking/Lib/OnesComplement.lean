/-
  DatacenterNetworking.Lib.OnesComplement

  Ones'-complement sums: addition with an end-around carry at the modulus `m`
  (`2 ^ w - 1` for words of `w` bits).  A sum has two zeros, `0` and `m`; the
  first is reached only by words that are all zero, so that a sum is `m` exactly
  when the words add up to a positive multiple of `m`.
-/

import Mathlib.Data.Nat.ModEq

namespace DatacenterNetworking

/-- One addition: what exceeds `m` is carried around. -/
def onesAdd (m a b : Nat) : Nat := if m < a + b then a + b - m else a + b

/-- The sum of the words, from the initial sum `s`. -/
def onesSum (m s : Nat) (ws : List Nat) : Nat := ws.foldl (onesAdd m) s

variable {m s : Nat}

@[simp] theorem onesSum_nil : onesSum m s [] = s := rfl

@[simp] theorem onesSum_cons (w : Nat) (ws : List Nat) :
    onesSum m s (w :: ws) = onesSum m (onesAdd m s w) ws := rfl

theorem onesSum_append (ws vs : List Nat) :
    onesSum m s (ws ++ vs) = onesSum m (onesSum m s ws) vs := List.foldl_append

theorem onesAdd_le {a b : Nat} (ha : a ≤ m) (hb : b ≤ m) : onesAdd m a b ≤ m := by
  simp only [onesAdd]
  split_ifs <;> omega

theorem onesAdd_modEq (m a b : Nat) : onesAdd m a b ≡ a + b [MOD m] := by
  simp only [onesAdd]
  split_ifs with hcarry
  · exact (Nat.modEq_iff_dvd' (Nat.sub_le _ _)).mpr ⟨1, by omega⟩
  · exact Nat.ModEq.refl _

/-- The carry is never a whole sum: only zeros add up to zero. -/
theorem onesAdd_eq_zero {a b : Nat} : onesAdd m a b = 0 ↔ a + b = 0 := by
  simp only [onesAdd]
  split_ifs <;> omega

theorem onesSum_le {ws : List Nat} (hs : s ≤ m) (hws : ∀ w ∈ ws, w ≤ m) : onesSum m s ws ≤ m := by
  induction ws generalizing s with
  | nil => exact hs
  | cons w ws ih =>
    obtain ⟨hw, hws⟩ := List.forall_mem_cons.mp hws
    exact ih (onesAdd_le hs hw) hws

theorem onesSum_modEq (m s : Nat) (ws : List Nat) : onesSum m s ws ≡ s + ws.sum [MOD m] := by
  induction ws generalizing s with
  | nil => exact Nat.ModEq.refl _
  | cons w ws ih =>
    rw [onesSum_cons, List.sum_cons, ← Nat.add_assoc]
    exact (ih _).trans ((onesAdd_modEq m s w).add_right _)

theorem onesSum_eq_zero {ws : List Nat} : onesSum m s ws = 0 ↔ s + ws.sum = 0 := by
  induction ws generalizing s with
  | nil => rfl
  | cons w ws ih =>
    have hadd := onesAdd_eq_zero (m := m) (a := s) (b := w)
    rw [onesSum_cons, ih, List.sum_cons]
    omega

/-- A sum of words is `m` when they add up to a positive multiple of it. -/
theorem onesSum_eq_top_iff {ws : List Nat} (hs : s ≤ m) (hws : ∀ w ∈ ws, w ≤ m) :
    onesSum m s ws = m ↔ m ∣ s + ws.sum ∧ 0 < s + ws.sum ∨ m = 0 := by
  have hle := onesSum_le hs hws
  have hmod := onesSum_modEq m s ws
  -- a residue of 0 stands for 0 and for `m`; only an empty sum is 0
  have hzero := @onesSum_eq_zero m s ws
  constructor
  · intro htop
    rw [htop] at hmod
    have hdvd : m ∣ s + ws.sum := (Nat.modEq_zero_iff_dvd.mp
      (hmod.symm.trans (Nat.modEq_zero_iff_dvd.mpr (dvd_refl m))))
    omega
  · rintro (⟨hdvd, hpos⟩ | rfl)
    · -- a multiple of `m` up to `m` that is not zero
      have hsum : m ∣ onesSum m s ws :=
        Nat.modEq_zero_iff_dvd.mp (hmod.trans (Nat.modEq_zero_iff_dvd.mpr hdvd))
      exact Nat.le_antisymm hle (Nat.le_of_dvd (by omega) hsum)
    · omega

end DatacenterNetworking
