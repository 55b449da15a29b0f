/-
  DatacenterNetworking.Htsim.TimelyRate

  The rate of a `TimelySrc`, in exact arithmetic.

  The decrease above `T_HIGH` was meant to grow with the RTT.  But `T_HIGH / new_rtt` is
  a division of integers and is zero there, so that every decrease is to a fifth of
  the rate; and the test that should stop it at half of the rate compares with the rate
  that has just been assigned.

  Between `T_LOW` and `T_HIGH` the rate depends on the gradient, which is NaN when both
  `_rtt_diff` and `_min_rtt` are zero.  NaN passes every test, and is stored as 2 ^ 63.

  `rate_iff_regular`: the rate stays between one and 10 Gbps, and no update takes more than
  half of it, in exactly those runs in which no update sees an RTT above `T_HIGH` or such a
  gradient.
-/

import DatacenterNetworking.Htsim.Timely
import Mathlib.Data.Nat.Cast.Order.Field
import Mathlib.Tactic.Linarith
import Mathlib.Tactic.Ring

namespace DatacenterNetworking
namespace Htsim

/-! ## Rounding -/

theorem le_llround {x : Rat} {n : Nat} (h : (n : Rat) ≤ x + 1 / 2) : n ≤ llround x := by
  have hfloor : (n : Int) ≤ (x + 1 / 2).floor := Rat.le_floor_iff.mpr (by exact_mod_cast h)
  simp only [llround]
  omega

theorem llround_le {x : Rat} (hx : 0 ≤ x) : (llround x : Rat) ≤ x + 1 / 2 := by
  have hnonneg : 0 ≤ (x + 1 / 2).floor := Rat.le_floor_iff.mpr (by push_cast; linarith)
  have hcast : ((llround x : Int) : Rat) = ((x + 1 / 2).floor : Rat) := by
    rw [llround, Int.toNat_of_nonneg hnonneg]
  calc (llround x : Rat) = ((x + 1 / 2).floor : Rat) := by exact_mod_cast hcast
    _ ≤ x + 1 / 2 := Rat.floor_le _

namespace TimelySrc

/-! ## One update -/

theorem tLow_pos : 0 < tLow := by decide

/-- The gradient, doubled and raised, is NaN only if it was. -/
theorem doubled_ne_nan {gradient : ExtRat} (h : gradient ≠ .nan) :
    (.fin 2 * gradient + .fin (1 / 2) : ExtRat) ≠ .nan := by
  cases gradient with
  | nan => exact absurd rfl h
  | negInf => decide
  | fin q => exact ExtRat.noConfusion
  | posInf => decide

/-- The second test of the update never holds. -/
theorem rateOf_eq {x : Rat} (hx : 0 ≤ x) :
    rateOf exactTimely (.fin x) = if (maxRate : Rat) < x then maxRate else llround x := by
  have hhalf : ∀ {n : Nat}, (n : Rat) ≤ x + 1 / 2 → ¬ x < ((n / 2 : Nat) : Rat) := by
    intro n hn hlt
    have hdiv : ((n / 2 : Nat) : Rat) ≤ (n : Rat) / 2 := Nat.cast_div_le
    -- a rate of zero or one has no half
    have hsmall : n < 2 := by
      by_contra hge
      have htwo : (2 : Rat) ≤ n := by exact_mod_cast Nat.le_of_not_lt hge
      linarith
    have hzero : n / 2 = 0 := Nat.div_eq_of_lt hsmall
    rw [hzero] at hlt
    exact absurd hx (not_le_of_gt (by exact_mod_cast hlt))
  simp only [rateOf, exactTimely, llroundExt, decide_eq_true_eq, ExtRat.fin_lt]
  split_ifs with habove hbelow hbelow
  · exact absurd hbelow (hhalf (by linarith))
  · rfl
  · exact absurd hbelow (hhalf (llround_le hx))
  · rfl

/-- What the rounded rate is, from the value before rounding. -/
theorem rateOf_le {x : Rat} (hx : 0 ≤ x) : rateOf exactTimely (.fin x) ≤ maxRate := by
  rw [rateOf_eq hx]
  split_ifs with habove
  · exact le_rfl
  · have hround := llround_le hx
    have hle : (llround x : Rat) < maxRate + 1 := by linarith
    have hle' : llround x < maxRate + 1 := by exact_mod_cast hle
    omega

theorem le_rateOf {x : Rat} {n : Nat} (hx : 0 ≤ x) (hmax : n ≤ maxRate)
    (hn : (n : Rat) ≤ x + 1 / 2) : n ≤ rateOf exactTimely (.fin x) := by
  rw [rateOf_eq hx]
  split_ifs
  · exact hmax
  · exact le_llround hn

/-- Up to `T_HIGH`, less than a thirtieth of the rate is taken. -/
theorem exists_newRate {newRtt : Nat} {s : TimelySrc ExtRat} (hrtt : newRtt ≤ tHigh)
    (hgradient : tLow ≤ newRtt → s.rttGradient ≠ .nan) :
    ∃ x : Rat, newRate exactTimely newRtt s = .fin x ∧ 968 / 1000 * (s.rate : Rat) ≤ x := by
  have hrate : (0 : Rat) ≤ s.rate := Nat.cast_nonneg _
  simp only [newRate, if_neg (Nat.not_lt_of_le hrtt)]
  split_ifs with hlow
  · exact ⟨(s.rate : Rat) + 10000000, rfl, by linarith⟩
  · -- the gradient is a number or infinite, and the weight a number
    have hsum : (.fin 2 * s.rttGradient + .fin (1 / 2) : ExtRat) ≠ .nan :=
      doubled_ne_nan (hgradient (Nat.le_of_not_lt hlow))
    obtain ⟨weight, hweight, hw₀, hw₁⟩ := ExtRat.exists_clip zero_le_one hsum
    refine ⟨(1 - weight) * 10000000 +
      s.rate * (1 - 8 / 1000 * weight * (((newRtt - tLow : Nat) : Rat) / tLow)), ?_, ?_⟩
    · simp only [exactTimely, hweight, ExtRat.fin_mul, ExtRat.fin_sub, ExtRat.fin_add]
    -- the weight is at most one, and the excess at most four times `T_LOW`
    have htlow : (0 : Rat) < tLow := Nat.cast_pos.mpr tLow_pos
    have hexcess : (newRtt - tLow : Nat) ≤ 4 * tLow := by
      have hfive : tHigh = 5 * tLow := by decide
      omega
    have herr₁ : ((newRtt - tLow : Nat) : Rat) / tLow ≤ 4 :=
      (div_le_iff₀ htlow).mpr (by exact_mod_cast hexcess)
    have herr₀ : (0 : Rat) ≤ ((newRtt - tLow : Nat) : Rat) / tLow :=
      div_nonneg (Nat.cast_nonneg _) htlow.le
    have hprod : weight * (((newRtt - tLow : Nat) : Rat) / tLow) ≤ 1 * 4 :=
      mul_le_mul hw₁ herr₁ herr₀ zero_le_one
    -- so the rate is cut by a thirtieth at most
    have hcut : 8 / 1000 * weight * (((newRtt - tLow : Nat) : Rat) / tLow) ≤ 32 / 1000 := by
      linarith
    have hkeep : 968 / 1000 * (s.rate : Rat) ≤
        s.rate * (1 - 8 / 1000 * weight * (((newRtt - tLow : Nat) : Rat) / tLow)) := by
      rw [mul_comm]
      exact mul_le_mul_of_nonneg_left (by linarith) hrate
    linarith

/-- An update at such an RTT leaves half of the rate. -/
theorem rateOf_low {newRtt : Nat} {s : TimelySrc ExtRat} (hrtt : newRtt ≤ tHigh)
    (hgradient : tLow ≤ newRtt → s.rttGradient ≠ .nan) (hpos : 1 ≤ s.rate)
    (hmax : s.rate ≤ maxRate) :
    1 ≤ rateOf exactTimely (newRate exactTimely newRtt s) ∧
      rateOf exactTimely (newRate exactTimely newRtt s) ≤ maxRate ∧
      s.rate ≤ 2 * rateOf exactTimely (newRate exactTimely newRtt s) := by
  obtain ⟨x, hnew, hx⟩ := exists_newRate hrtt hgradient
  have hrate : (1 : Rat) ≤ s.rate := by exact_mod_cast hpos
  have hnonneg : 0 ≤ x := by linarith
  -- half of the rate, rounded up
  have hhalf : (((s.rate + 1) / 2 : Nat) : Rat) ≤ x + 1 / 2 := by
    have hdiv : (((s.rate + 1) / 2 : Nat) : Rat) ≤ ((s.rate + 1 : Nat) : Rat) / 2 :=
      Nat.cast_div_le
    push_cast at hdiv
    linarith
  have hle := le_rateOf hnonneg (by omega) hhalf
  rw [hnew]
  exact ⟨by omega, rateOf_le hnonneg, by omega⟩

/-- A gradient that is NaN leaves a rate above the greatest. -/
theorem rateOf_nan {newRtt : Nat} {s : TimelySrc ExtRat} (hlow : tLow ≤ newRtt)
    (hrtt : newRtt ≤ tHigh) (hgradient : s.rttGradient = .nan) :
    maxRate < rateOf exactTimely (newRate exactTimely newRtt s) := by
  have hnew : newRate exactTimely newRtt s = .nan := by
    simp only [newRate, if_neg (Nat.not_lt_of_le hlow), if_neg (Nat.not_lt_of_le hrtt),
      exactTimely, hgradient, ExtRat.mul_nan, ExtRat.nan_mul, ExtRat.nan_add, ExtRat.clip_nan,
      ExtRat.sub_nan]
  have hrate : rateOf exactTimely .nan = 2 ^ 63 := by
    simp only [rateOf, exactTimely, llroundExt, decide_eq_true_eq, if_neg ExtRat.not_lt_nan,
      if_neg ExtRat.not_nan_lt]
  rw [hnew, hrate]
  decide

/-- An update above `T_HIGH` leaves a fifth. -/
theorem rateOf_high {newRtt : Nat} {s : TimelySrc ExtRat} (hrtt : tHigh < newRtt)
    (hpos : 1 ≤ s.rate) (hmax : s.rate ≤ maxRate) :
    2 * rateOf exactTimely (newRate exactTimely newRtt s) < s.rate := by
  have hlow : ¬ newRtt < tLow := by
    have hle : tLow ≤ tHigh := by decide
    omega
  have hnew : newRate exactTimely newRtt s = .fin (s.rate / 5) := by
    simp only [newRate, if_neg hlow, if_pos hrtt, Nat.div_eq_of_lt hrtt, exactTimely]
    push_cast
    congr 1
    ring
  have hrate : (1 : Rat) ≤ s.rate := by exact_mod_cast hpos
  have hmax' : (s.rate : Rat) ≤ maxRate := by exact_mod_cast hmax
  have hnonneg : (0 : Rat) ≤ s.rate / 5 := by linarith
  rw [hnew, rateOf_eq hnonneg, if_neg (by linarith)]
  have hround := llround_le hnonneg
  have hfive : (10 * llround ((s.rate : Rat) / 5) : Nat) ≤ (2 * s.rate + 5 : Nat) := by
    have hcast : (10 * llround ((s.rate : Rat) / 5) : Rat) ≤ 2 * s.rate + 5 := by linarith
    exact_mod_cast hcast
  omega

/-! ## When there is an update -/

section

variable {D : Type} {float : TimelyFloat D} {now : Nat}

/-- The ack leads to an update of the rate. -/
def Updates (now : Nat) (a : DataAck) (s : TimelySrc D) : Prop :=
  s.state ≠ .finish ∧ ¬ s.Completes now a.ackno ∧ s.lastAcked ≤ a.ackno ∧
    s.lastRttBytes + s.bdpEstimate < s.lastAcked

instance (now : Nat) (a : DataAck) (s : TimelySrc D) : Decidable (Updates now a s) :=
  inferInstanceAs (Decidable (_ ∧ _))

@[simp] theorem goOn_rate (s : TimelySrc D) : (goOn float now s).rate = s.rate := rfl

theorem doNextEvent_rate {nPackets : Nat} {s t : TimelySrc D}
    (h : doNextEvent float now nPackets s = some t) :
    t.rate = s.rate ∧ t.rttDiff = s.rttDiff := by
  unfold doNextEvent at h
  split_ifs at h <;> cases h <;> exact ⟨rfl, rfl⟩

@[simp] theorem updateRtt_bdpEstimate (ts : Nat) (s : PacedSource) :
    (s.updateRtt now ts).bdpEstimate = s.bdpEstimate := by
  simp only [PacedSource.updateRtt]
  split_ifs <;> rfl

theorem updateEstimates_rate (a : DataAck) (s : TimelySrc D) :
    (updateEstimates float now a s).rate =
      if s.lastRttBytes + s.bdpEstimate < s.lastAcked then
        rateOf float (newRate float (sub64 now a.ts)
          (updateGradient float (sub64 now a.ts) (updateRtt now a.ts s)))
      else s.rate := by
  have hacked : (s.toPacedSource.updateRtt now a.ts).lastAcked = s.lastAcked := by
    rw [PacedSource.updateRtt_source]
  simp only [updateEstimates, updateRate, updateGradient, updateRtt, hacked,
    updateRtt_bdpEstimate]
  split_ifs <;> rfl

/-- An ack changes the rate in an update only. -/
theorem receivePacket_rate (float : TimelyFloat D) (now : Nat) (a : DataAck) (s : TimelySrc D) :
    (receivePacket float now a s).rate =
      if Updates now a s then
        rateOf float (newRate float (sub64 now a.ts)
          (updateGradient float (sub64 now a.ts) (updateRtt now a.ts s)))
      else s.rate := by
  by_cases hstate : s.state = .finish
  · rw [receivePacket, if_pos hstate, if_neg fun h => h.1 hstate]
  by_cases hgo : s.Completes now a.ackno
  · rw [receivePacket, if_neg hstate, if_pos hgo, if_neg fun h => h.2.1 hgo]
  by_cases hold : a.ackno < s.lastAcked
  · rw [receivePacket_old hstate hgo hold, if_neg fun h => absurd h.2.2.1 (Nat.not_le_of_lt hold)]
  have hiff : Updates now a s ↔ s.lastRttBytes + s.bdpEstimate < s.lastAcked :=
    ⟨fun h => h.2.2.2, fun h => ⟨hstate, hgo, Nat.le_of_not_lt hold, h⟩⟩
  rw [receivePacket, if_neg hstate, if_neg hgo, if_neg hold]
  show (updateEstimates float now a s).rate = _
  rw [updateEstimates_rate]
  simp only [hiff]

end

/-! ## The gradient -/

/-- The gradient of the ack is `0.0 / 0`: there was an RTT of zero, and this one is below the
    one before by as much as brings `_rtt_diff` to zero. -/
def ZeroByZero (newRtt : Nat) (s : TimelySrc ExtRat) : Prop :=
  let prevRtt := if s.rtt = 0 then newRtt else s.prevRtt
  s.minRtt = 0 ∧ .fin 49 * s.rttDiff = .fin ((prevRtt : Rat) - newRtt)

instance (newRtt : Nat) (s : TimelySrc ExtRat) : Decidable (ZeroByZero newRtt s) :=
  inferInstanceAs (Decidable (_ ∧ _))

/-- `_rtt_diff` stays a number. -/
theorem updateGradient_rttDiff {newRtt : Nat} {s : TimelySrc ExtRat} {d : Rat}
    (hd : s.rttDiff = .fin d) :
    (updateGradient exactTimely newRtt s).rttDiff =
      .fin ((49 * d + ((newRtt : Rat) - s.prevRtt)) / 50) := by
  simp only [updateGradient, exactTimely, hd, ExtRat.fin_mul, ExtRat.fin_add, ExtRat.fin_sub]
  split_ifs with hrise
  · rw [Nat.cast_sub hrise.le]
    congr 1
    ring
  · rw [Nat.cast_sub (Nat.le_of_not_lt hrise)]
    congr 1
    ring

theorem gradient_eq_nan_iff {now ts : Nat} {s : TimelySrc ExtRat} {d : Rat}
    (hd : s.rttDiff = .fin d) (hpos : 0 < sub64 now ts) :
    (updateGradient exactTimely (sub64 now ts) (updateRtt now ts s)).rttGradient = .nan ↔
      ZeroByZero (sub64 now ts) s := by
  have hdiff : (updateRtt now ts s).rttDiff = .fin d := hd
  have hmin : (updateRtt now ts s).minRtt = min (sub64 now ts) s.minRtt := by
    simp only [updateRtt, PacedSource.updateRtt]
    split_ifs <;> rfl
  have hprev : (updateRtt now ts s).prevRtt = if s.rtt = 0 then sub64 now ts else s.prevRtt := by
    simp only [updateRtt, Nat.ne_of_gt hpos, ne_eq, not_false_eq_true, true_and]
  have hgradient : (updateGradient exactTimely (sub64 now ts) (updateRtt now ts s)).rttGradient =
      (updateGradient exactTimely (sub64 now ts) (updateRtt now ts s)).rttDiff /
        (((updateRtt now ts s).minRtt : Nat) : Rat) := rfl
  rw [hgradient, updateGradient_rttDiff hdiff, ExtRat.fin_div_eq_nan, Nat.cast_eq_zero, hmin,
    hprev, ZeroByZero, hd, ExtRat.fin_mul, ExtRat.fin.injEq]
  refine and_congr ⟨fun h => by omega, fun h => by omega⟩ ⟨fun h => ?_, fun h => ?_⟩
  · linarith
  · linarith

theorem receivePacket_rttDiff (now : Nat) (a : DataAck) {s : TimelySrc ExtRat}
    (h : ∃ d, s.rttDiff = .fin d) :
    ∃ d, (receivePacket exactTimely now a s).rttDiff = .fin d := by
  obtain ⟨d, hd⟩ := h
  unfold receivePacket
  split_ifs
  · exact ⟨d, hd⟩
  · exact ⟨d, hd⟩
  · exact ⟨d, hd⟩
  · -- the update of the rate leaves `_rtt_diff`
    have hkeep : (updateEstimates exactTimely now a s).rttDiff =
        (updateGradient exactTimely (sub64 now a.ts) (updateRtt now a.ts s)).rttDiff := by
      simp only [updateEstimates, updateRate]
      split_ifs <;> rfl
    exact ⟨_, hkeep.trans (updateGradient_rttDiff hd)⟩

/-! ## Runs -/

/-- TIMELY in exact arithmetic. -/
abbrev exactEndhost : Endhost (TimelySrc ExtRat) TimelySink := timelyEndhost exactTimely

/-- The flow of a `TimelySrc`. -/
abbrev TimelyFlow := Flow (TimelySrc ExtRat) TimelySink

/-- The rate is between one and 10 Gbps. -/
def RateOk (s : TimelyFlow) : Prop := 1 ≤ s.src.rate ∧ s.src.rate ≤ maxRate

/-- A step leaves at least half of the rate. -/
def KeepsHalf (s : TimelyFlow) (a : Flow.Act) : Prop :=
  ∀ t, Flow.step exactEndhost s a = some t → s.src.rate ≤ 2 * t.src.rate

instance (s : TimelyFlow) (a : Flow.Act) : Decidable (KeepsHalf s a) :=
  match hstep : Flow.step exactEndhost s a with
  | none => isTrue fun t ht => by
      rw [hstep] at ht
      cases ht
  | some t =>
      decidable_of_iff (s.src.rate ≤ 2 * t.src.rate)
        ⟨fun h t' ht' => by
          rw [hstep] at ht'
          cases ht'
          exact h, fun h => h t hstep⟩

/-- No ack that leads to an update has an RTT above `T_HIGH`, or one from `T_LOW` on with a
    gradient that is NaN. -/
def Regular (s : TimelyFlow) : Flow.Act → Prop
  | .deliverAck i => ∀ a, s.acks[i]? = some a → Updates s.now a s.src →
      sub64 s.now a.ts ≤ tHigh ∧ (tLow ≤ sub64 s.now a.ts → ¬ ZeroByZero (sub64 s.now a.ts) s.src)
  | _ => True

/-- The rate is right and `_rtt_diff` a number. -/
structure Sound (s : TimelyFlow) : Prop where
  rate : RateOk s
  diff : ∃ d, s.src.rttDiff = .fin d

/-- Only an ack changes the rate and the estimates. -/
theorem step_src {s t : TimelyFlow} {a : Flow.Act}
    (hstep : Flow.step exactEndhost s a = some t) :
    (t.src.rate = s.src.rate ∧ t.src.rttDiff = s.src.rttDiff) ∨
      ∃ i p, a = .deliverAck i ∧ s.acks[i]? = some p ∧
        t.src = receivePacket exactTimely s.now p s.src := by
  cases Flow.stepped hstep with
  | @event time src _ _ hnext =>
    left
    have hsame : src.rate = (s.popEvent exactEndhost time).src.rate ∧
        src.rttDiff = (s.popEvent exactEndhost time).src.rttDiff := doNextEvent_rate hnext
    exact hsame
  | deleted => exact Or.inl ⟨rfl, rfl⟩
  | ack ha => exact Or.inr ⟨_, _, rfl, ha, rfl⟩
  | data => exact Or.inl ⟨rfl, rfl⟩
  | network => exact Or.inl ⟨rfl, rfl⟩

theorem rate_step {s t : TimelyFlow} {a : Flow.Act} (h : Sound s) (hregular : Regular s a)
    (hstep : Flow.step exactEndhost s a = some t) :
    Sound t ∧ s.src.rate ≤ 2 * t.src.rate := by
  obtain ⟨⟨hpos, hmax⟩, d, hd⟩ := h
  have hsame : t.src.rate = s.src.rate → RateOk t ∧ s.src.rate ≤ 2 * t.src.rate := by
    intro heq
    rw [RateOk, heq]
    exact ⟨⟨hpos, hmax⟩, by omega⟩
  rcases step_src hstep with ⟨heq, hdiff⟩ | ⟨i, p, rfl, hp, hsrc⟩
  · obtain ⟨hok, hhalf⟩ := hsame heq
    exact ⟨⟨hok, d, hdiff.trans hd⟩, hhalf⟩
  · have hnumber : ∃ d, t.src.rttDiff = .fin d := by
      rw [hsrc]
      exact receivePacket_rttDiff s.now p ⟨d, hd⟩
    have hrate := receivePacket_rate exactTimely s.now p s.src
    rw [← hsrc] at hrate
    by_cases hup : Updates s.now p s.src
    · rw [if_pos hup] at hrate
      obtain ⟨hlow, hdefined⟩ := hregular p hp hup
      have hgradient : tLow ≤ sub64 s.now p.ts → (updateGradient exactTimely (sub64 s.now p.ts)
          (updateRtt s.now p.ts s.src)).rttGradient ≠ .nan := by
        intro hle hnan
        have hzero := (gradient_eq_nan_iff hd (tLow_pos.trans_le hle)).mp hnan
        exact hdefined hle hzero
      obtain ⟨hpos', hmax', hhalf⟩ := rateOf_low (s := updateGradient exactTimely
        (sub64 s.now p.ts) (updateRtt s.now p.ts s.src)) hlow hgradient hpos hmax
      rw [← hrate] at hpos' hmax' hhalf
      exact ⟨⟨⟨hpos', hmax'⟩, hnumber⟩, hhalf⟩
    · rw [if_neg hup] at hrate
      obtain ⟨hok, hhalf⟩ := hsame hrate
      exact ⟨⟨hok, hnumber⟩, hhalf⟩

/-- An update that is not regular breaks one bound or the other. -/
theorem regular_of_bounds {s t : TimelyFlow} {i : Nat} (h : Sound s)
    (hstep : Flow.step exactEndhost s (.deliverAck i) = some t) (hmax : t.src.rate ≤ maxRate)
    (hhalf : s.src.rate ≤ 2 * t.src.rate) : Regular s (.deliverAck i) := by
  obtain ⟨hok, d, hd⟩ := h
  intro p hp hup
  have hsrc : t.src = receivePacket exactTimely s.now p s.src := Flow.deliverAck_src hp hstep
  have hrate := receivePacket_rate exactTimely s.now p s.src
  rw [if_pos hup, ← hsrc] at hrate
  -- an RTT above `T_HIGH` cuts the rate below half of what it was
  have hlow : sub64 s.now p.ts ≤ tHigh := by
    by_contra hhigh
    have hfifth := rateOf_high (s := updateGradient exactTimely (sub64 s.now p.ts)
      (updateRtt s.now p.ts s.src)) (Nat.lt_of_not_le hhigh) hok.1 hok.2
    rw [← hrate] at hfifth
    exact absurd hhalf (Nat.not_le_of_lt hfifth)
  refine ⟨hlow, fun hle hzero => ?_⟩
  have hnan := (gradient_eq_nan_iff hd (tLow_pos.trans_le hle)).mpr hzero
  have habove := rateOf_nan hle hlow hnan
  rw [← hrate] at habove
  exact absurd hmax (Nat.not_le_of_lt habove)

/-- For every flow and every run of it. -/
theorem rate_iff_regular (flowsize duration startTime endtime : Nat) (as : List Flow.Act) :
    (Flow.system exactEndhost).Always RateOk
          (Flow.init exactEndhost flowsize duration startTime endtime) as ∧
        (Flow.system exactEndhost).Along KeepsHalf
          (Flow.init exactEndhost flowsize duration startTime endtime) as ↔
      (Flow.system exactEndhost).Along Regular
        (Flow.init exactEndhost flowsize duration startTime endtime) as := by
  refine Lts.always_and_along_iff (J := Sound) (fun _ h => h.rate)
    (fun s a t h hstep hregular => ?_) (fun s a t h hstep hok hhalf => ?_) as
    ⟨⟨(by decide : 1 ≤ maxRate), le_rfl⟩, 0, rfl⟩
  · obtain ⟨hsound, hhalf⟩ := rate_step h hregular hstep
    refine ⟨hsound, fun t' hstep' => ?_⟩
    cases hstep.symm.trans hstep'
    exact hhalf
  · cases a with
    | deliverAck i => exact regular_of_bounds h hstep hok.2 (hhalf t hstep)
    | _ => trivial

/-- Twelve segments are sent, and nine acked at once; the ack of the tenth, of which the RTT is
    more than 100 microseconds, is the first that leads to an update. -/
def slowAck : List Flow.Act :=
  List.replicate 12 .event ++ List.replicate 10 (.deliverData 0) ++
    List.replicate 9 (.deliverAck 0) ++ List.replicate 84 .event ++ [.deliverAck 0]

/-- The rate falls to a fifth at once. -/
theorem slowAck_breaks :
    ¬ (Flow.system exactEndhost).Along KeepsHalf (Flow.init exactEndhost 0 0 0 0) slowAck := by
  decide +kernel

/-- Nine segments are acked at the time they are sent, and the tenth after 24 microseconds. -/
def freeAcks : List Flow.Act :=
  (List.replicate 9 [.event, .deliverData 0, .deliverAck 0]).flatten ++
    List.replicate 21 .event ++ [.deliverData 0, .deliverAck 0]

-- the gradient of the tenth ack is NaN
example : ((Flow.system exactEndhost).run (Flow.init exactEndhost 0 0 0 0) freeAcks).map
    (fun s => s.src.rate) = some (2 ^ 63) := by
  decide +kernel

end TimelySrc
end Htsim
end DatacenterNetworking
