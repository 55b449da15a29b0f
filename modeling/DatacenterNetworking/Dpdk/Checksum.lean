/-
  DatacenterNetworking.Dpdk.Checksum

  What `checksum` computes, the same function in `lab1-client.c` and
  `lab1-server.c`: the ones'-complement sum of the words of the buffer in network
  order, a byte that is left at the end being the high byte of a word.

  `checksum_toNat` reads the loop as `onesSum`; the congruence, the two zeros and
  the sums of parts are rules of these.
-/

import DatacenterNetworking.Dpdk.HeaderChecksum

namespace DatacenterNetworking
namespace Dpdk

/-- The 16-bit words of a buffer in network order, the last byte of an odd one padded. -/
def paddedWords : List UInt8 → List Nat
  | [] => []
  | [b] => [b.toNat * 256]
  | b₀ :: b₁ :: rest => (b₀.toNat * 256 + b₁.toNat) :: paddedWords rest

theorem paddedWords_le (buf : List UInt8) : ∀ w ∈ paddedWords buf, w ≤ 0xFFFF := by
  induction buf using paddedWords.induct with
  | case1 => exact fun w hw => absurd hw List.not_mem_nil
  | case2 b =>
    have hb := b.toNat_lt
    exact List.forall_mem_singleton.mpr (by omega)
  | case3 b₀ b₁ rest ih =>
    have h₀ := b₀.toNat_lt
    have h₁ := b₁.toNat_lt
    exact List.forall_mem_cons.mpr ⟨by omega, ih⟩

/-- The words of a concatenation, when the first part ends between two words. -/
theorem paddedWords_append (a b : List UInt8) (heven : a.length % 2 = 0) :
    paddedWords (a ++ b) = paddedWords a ++ paddedWords b := by
  induction a using paddedWords.induct with
  | case1 => rfl
  | case2 b => exact absurd heven Nat.one_ne_zero
  | case3 b₀ b₁ rest ih =>
    have hrest : rest.length % 2 = 0 := by
      rw [List.length_cons, List.length_cons] at heven
      omega
    simp only [List.cons_append, paddedWords, ih hrest]

/-! ## The loop -/

/-- An addition does not wrap, and the carry is folded once. -/
theorem addWord_toNat {sum word : UInt32} (hsum : sum.toNat ≤ 0xFFFF)
    (hword : word.toNat ≤ 0xFFFF) :
    (addWord sum word).toNat = onesAdd 0xFFFF sum.toNat word.toNat := by
  have hadd : (sum + word).toNat = sum.toNat + word.toNat := by
    rw [UInt32.toNat_add]
    exact Nat.mod_eq_of_lt (by omega)
  have hcond : (0xFFFF < sum + word) ↔ 0xFFFF < sum.toNat + word.toNat := by
    rw [UInt32.lt_iff_toNat_lt, hadd]
    rfl
  rw [addWord, onesAdd]
  by_cases hcarry : 0xFFFF < sum.toNat + word.toNat
  · have hle : (0xFFFF : UInt32) ≤ sum + word := by
      rw [UInt32.le_iff_toNat_le, hadd]
      exact hcarry.le
    rw [if_pos (hcond.mpr hcarry), if_pos hcarry, UInt32.toNat_sub_of_le _ _ hle, hadd]
    rfl
  · rw [if_neg (mt hcond.mp hcarry), if_neg hcarry, hadd]

theorem load16_toNat (b₀ b₁ : UInt8) : (load16 b₀ b₁).toNat = b₀.toNat + b₁.toNat * 256 := by
  have h₀ := b₀.toNat_lt
  have h₁ := b₁.toNat_lt
  simp only [load16, UInt16.toNat_add, UInt16.toNat_mul, UInt8.toNat_toUInt16, UInt16.reduceToNat,
    Nat.reducePow] at h₀ h₁ ⊢
  omega

/-- Two bytes of memory, loaded and swapped, are the word in network order. -/
theorem loaded_toNat (b₀ b₁ : UInt8) :
    (swap16 (load16 b₀ b₁)).toUInt32.toNat = b₀.toNat * 256 + b₁.toNat := by
  have h₀ := b₀.toNat_lt
  have h₁ := b₁.toNat_lt
  rw [UInt16.toNat_toUInt32, swap16_toNat, load16_toNat]
  omega

/-- `buf[i] << 8`. -/
theorem shifted_toNat (b : UInt8) : (b.toUInt32 * 256).toNat = b.toNat * 256 := by
  have hb := b.toNat_lt
  simp only [UInt32.toNat_mul, UInt8.toNat_toUInt32, UInt32.reduceToNat, Nat.reducePow] at hb ⊢
  omega

theorem checksumLoop_toNat (buf : List UInt8) {sum : UInt32} (hsum : sum.toNat ≤ 0xFFFF) :
    (checksumLoop buf sum).toNat = onesSum 0xFFFF sum.toNat (paddedWords buf) := by
  induction buf using paddedWords.induct generalizing sum with
  | case1 => rfl
  | case2 b =>
    have hb := b.toNat_lt
    rw [checksumLoop, addWord_toNat hsum (by rw [shifted_toNat]; omega), shifted_toNat]
    rfl
  | case3 b₀ b₁ rest ih =>
    have h₀ := b₀.toNat_lt
    have h₁ := b₁.toNat_lt
    have hword : (swap16 (load16 b₀ b₁)).toUInt32.toNat ≤ 0xFFFF := by
      rw [loaded_toNat]
      omega
    have hadd := addWord_toNat hsum hword
    -- the sum of the next round is folded again
    have hnext : (addWord sum (swap16 (load16 b₀ b₁)).toUInt32).toNat ≤ 0xFFFF := by
      rw [hadd]
      exact onesAdd_le hsum hword
    rw [checksumLoop, ih hnext, hadd, loaded_toNat]
    rfl

theorem checksum_toNat (buf : List UInt8) (nbytes : Nat) {sum : UInt32}
    (hsum : sum.toNat ≤ 0xFFFF) :
    (checksum buf nbytes sum).toNat =
      onesSum 0xFFFF sum.toNat (paddedWords (buf.take nbytes)) :=
  checksumLoop_toNat _ hsum

/-- The checksum of a buffer that follows another of even length. -/
theorem checksum_append (a b : List UInt8) (nbytes : Nat) {sum : UInt32}
    (hsum : sum.toNat ≤ 0xFFFF) (heven : a.length % 2 = 0) :
    checksum (a ++ b) (a.length + nbytes) sum =
      checksum b nbytes (checksum a a.length sum) := by
  have hfirst := checksum_toNat a a.length hsum
  have hle : (checksum a a.length sum).toNat ≤ 0xFFFF := by
    rw [hfirst]
    exact onesSum_le hsum (paddedWords_le _)
  apply UInt32.toNat_inj.mp
  rw [checksum_toNat _ _ hsum, checksum_toNat _ _ hle, hfirst, List.take_length_add_append,
    paddedWords_append _ _ heven, onesSum_append, List.take_length]

/-- The sum stays in 16 bits, is right modulo `0xFFFF`, is zero only when everything summed is,
    and can be taken in parts. -/
theorem checksum_spec (buf : List UInt8) (nbytes : Nat) (sum : UInt32)
    (hsum : sum.toNat ≤ 0xFFFF) :
    (checksum buf nbytes sum).toNat ≤ 0xFFFF ∧
    (checksum buf nbytes sum).toNat ≡ sum.toNat + (paddedWords (buf.take nbytes)).sum
      [MOD 0xFFFF] ∧
    (checksum buf nbytes sum = 0 ↔ sum = 0 ∧ ∀ w ∈ paddedWords (buf.take nbytes), w = 0) ∧
    ∀ a : List UInt8, a.length % 2 = 0 →
      checksum (a ++ buf) (a.length + nbytes) sum =
        checksum buf nbytes (checksum a a.length sum) := by
  have hvalue := checksum_toNat buf nbytes hsum
  refine ⟨?_, ?_, ?_, fun a heven => checksum_append a buf nbytes hsum heven⟩
  · rw [hvalue]
    exact onesSum_le hsum (paddedWords_le _)
  · rw [hvalue]
    exact onesSum_modEq _ _ _
  · rw [← UInt32.toNat_inj, ← UInt32.toNat_inj, hvalue]
    rw [UInt32.toNat_zero, onesSum_eq_zero, Nat.add_eq_zero_iff, List.sum_eq_zero_iff_forall_eq_nat]

/-- Three bytes whose words add up to `0xFFFF`: the sum is not folded to zero. -/
theorem checksum_odd :
    checksum [0xFE, 0xFF, 0x01] 3 0 = 0xFFFF ∧
    (checksum [0xFE, 0xFF, 0x01] 3 0 = 0 ↔
      (0 : UInt32) = 0 ∧ ∀ w ∈ paddedWords (List.take 3 [0xFE, 0xFF, 0x01]), w = 0) :=
  ⟨by decide, (checksum_spec [0xFE, 0xFF, 0x01] 3 0 (by decide)).2.2.1⟩

end Dpdk
end DatacenterNetworking
