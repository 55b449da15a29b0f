/-
  DatacenterNetworking.Htsim.OfferedLoad

  Does `setReplaceFlow` leave the mean time between arrivals as it was?  The
  constructor computes it in real arithmetic, `8 * avgFlowSize / flowRate`.
  `setReplaceFlow` goes through the completion time at the rate of one flow,
  `_flowRate/_maxFlows`, a quotient of integers: it is zero for more flows than
  bits per second, and what it drops otherwise is missing from the rate.

  `preserved_iff`: the exact condition for the two to agree up to a picosecond.
-/

import DatacenterNetworking.Htsim.FlowGenerator
import DatacenterNetworking.Htsim.TimelyRate

namespace DatacenterNetworking
namespace Htsim

/-! ## Quotients of natural numbers -/

theorem floor_div (n d : Nat) : ((n : Rat) / d).floor.toNat = n / d := by
  have hfloor : ((n : Rat) / d).floor = (n / d : Int) := Rat.floor_natCast_div_natCast n d
  rw [hfloor]
  rfl

theorem toUint64_div (n d : Nat) :
    toUint64 ((n : Rat) / d) = if n / d < 2 ^ 64 then some (n / d) else none := by
  have hnonneg : (0 : Rat) ≤ (n : Rat) / d := div_nonneg (Nat.cast_nonneg _) (Nat.cast_nonneg _)
  rw [toUint64, floor_div]
  simp only [hnonneg, true_and]

/-- Rounding to the nearest is a division as well. -/
theorem llround_div (n : Nat) {d : Nat} (hpos : 0 < d) :
    llround ((n : Rat) / d) = (2 * n + d) / (2 * d) := by
  have hd : (d : Rat) ≠ 0 := Nat.cast_ne_zero.mpr hpos.ne'
  have hhalf : (n : Rat) / d + 1 / 2 = ((2 * n + d : Nat) : Rat) / ((2 * d : Nat) : Rat) := by
    push_cast
    field_simp
  rw [llround, hhalf, floor_div]

theorem llround64_div (n : Nat) {d : Nat} (hpos : 0 < d) :
    llround64 ((n : Rat) / d) =
      if 2 * n + d < 2 ^ 64 * d then some ((2 * n + d) / (2 * d)) else none := by
  have hnonneg : (0 : Rat) ≤ (n : Rat) / d := div_nonneg (Nat.cast_nonneg _) (Nat.cast_nonneg _)
  have hrange : (2 * n + d) / (2 * d) < 2 ^ 63 ↔ 2 * n + d < 2 ^ 64 * d := by
    rw [Nat.div_lt_iff_lt_mul (by omega)]
    omega
  rw [llround64, llround_div n hpos]
  simp only [hnonneg, true_and, hrange]

/-- The part of a time that is a fraction of it is in range. -/
theorem llround64_part {time : Nat} (htime : time < 2 ^ 63) {x : Rat} (hx : 0 ≤ x)
    (hle : x ≤ time) : (llround64 x).isSome := by
  have hround : llround x ≤ time := by
    have hfloor : (x + 1 / 2).floor < time + 1 :=
      Rat.floor_lt_iff.mpr (by push_cast; linarith)
    simp only [llround]
    omega
  rw [llround64, if_pos ⟨hx, by omega⟩]
  rfl

namespace FlowGenerator

/-! ## The two means -/

/-- The time of `avgFlowSize` bytes at one bit per second. -/
def bitTime (avgFlowSize : Nat) : Nat := 8 * 10 ^ 12 * avgFlowSize

section Means

variable {flowRate : Nat} {avgFlowSize : UInt32} {dist : FlowDist}

/-- The mean size of the flows is not zero. -/
theorem avgFlowSize_pos (hsize : 1 ≤ avgFlowSize.toNat) :
    1 ≤ (Workloads.new avgFlowSize dist).avgFlowSize.toNat := by
  cases dist with
  | UNIFORM => exact hsize
  | PARETO => exact hsize
  | ENTERPRISE =>
    show 1 ≤ (215000 : UInt32).toNat
    decide
  | DATAMINING =>
    show 1 ≤ (12500000 : UInt32).toNat
    decide

theorem new_avgFlowArrivalTime (hrate : 1 ≤ flowRate) (hsize : 1 ≤ avgFlowSize.toNat) :
    (new flowRate avgFlowSize dist).avgFlowArrivalTime =
      (let time := bitTime (Workloads.new avgFlowSize dist).avgFlowSize.toNat / flowRate
       if time < 2 ^ 64 then some time else none) := by
  have hpos := @avgFlowSize_pos avgFlowSize dist hsize
  simp only [new, divide]
  generalize (Workloads.new avgFlowSize dist).avgFlowSize.toNat = size at hpos
  have hrate' : (flowRate : Rat) ≠ 0 := Nat.cast_ne_zero.mpr (by omega)
  have hsize' : (size : Rat) ≠ 0 := Nat.cast_ne_zero.mpr (by omega)
  have hper : (flowRate : Rat) / (size * 8) ≠ 0 :=
    div_ne_zero hrate' (mul_ne_zero hsize' (by norm_num))
  have htime : (10 ^ 12 : Rat) / (flowRate / (size * 8)) = (bitTime size : Nat) / flowRate := by
    rw [bitTime]
    push_cast
    field_simp
    norm_num
  rw [if_neg hper, Option.bind_some, htime, toUint64_div]

/-- How long `size` bytes take at `rate`. -/
theorem timeFromSec_divide (size rate : Nat) :
    (divide ((size : Rat) * 8) rate).bind timeFromSec =
      if rate ≠ 0 ∧ 2 * bitTime size + rate < 2 ^ 64 * rate then
        some ((2 * bitTime size + rate) / (2 * rate))
      else none := by
  by_cases hzero : rate = 0
  · simp only [hzero, Nat.cast_zero, divide, if_true, Option.bind_none, ne_eq, not_true_eq_false,
      false_and, if_false]
  · have hne : (rate : Rat) ≠ 0 := Nat.cast_ne_zero.mpr hzero
    have htime : (size : Rat) * 8 / rate * 10 ^ 12 = (bitTime size : Nat) / rate := by
      rw [bitTime]
      push_cast
      ring
    rw [divide, if_neg hne, Option.bind_some, timeFromSec, htime, llround64_div _ (by omega)]
    simp only [ne_eq, hzero, not_false_eq_true, true_and]

end Means

/-! ## Replacement and the load -/

/-- No divisor of `setReplaceFlow` is zero, and the mean time between arrivals is as it was
    before, up to a picosecond. -/
structure Preserved (maxFlows : Nat) (offRatio : Rat) (g : FlowGenerator) : Prop where
  maxFlows_ne : maxFlows ≠ 0
  rate_ne : g.flowRate / maxFlows ≠ 0
  offRatio_ne : 1 + offRatio ≠ 0
  mean : ∃ before after, g.avgFlowArrivalTime = some before ∧
    (g.setReplaceFlow maxFlows offRatio).avgFlowArrivalTime = some after ∧
    before ≤ after + 1 ∧ after ≤ before + 1

/-- The rate is enough for a bit per second in each of `maxFlows` flows, a flow completes within
    the range of a time, and the bits that `_flowRate/_maxFlows` drops are few. -/
structure LoadFits (flowRate maxFlows avgFlowSize : Nat) : Prop where
  shared : maxFlows ≤ flowRate
  range : 2 * bitTime avgFlowSize + flowRate / maxFlows < 2 ^ 64 * (flowRate / maxFlows)
  dropped :
    2 * (flowRate % maxFlows) * (bitTime avgFlowSize / flowRate + 2) +
        2 * (bitTime avgFlowSize % flowRate) + flowRate / maxFlows <
      4 * flowRate

/-- A rate that is a multiple of the number of flows drops nothing. -/
theorem LoadFits.of_dvd {flowRate maxFlows avgFlowSize : Nat} (hrate : 1 ≤ flowRate)
    (hdvd : maxFlows ∣ flowRate)
    (hrange : 2 * bitTime avgFlowSize + flowRate / maxFlows < 2 ^ 64 * (flowRate / maxFlows)) :
    LoadFits flowRate maxFlows avgFlowSize where
  shared := Nat.le_of_dvd hrate hdvd
  range := hrange
  dropped := by
    have hrest := Nat.mod_lt (bitTime avgFlowSize) hrate
    have hshare := Nat.div_le_self flowRate maxFlows
    rw [Nat.mod_eq_zero_of_dvd hdvd, Nat.mul_zero, Nat.zero_mul]
    omega

/-- Rounding a share of the rate down makes the mean larger. -/
theorem div_le_share {flowRate maxFlows : Nat} (hpos : 0 < flowRate / maxFlows) (time : Nat) :
    time / flowRate ≤
      (2 * time + flowRate / maxFlows) / (2 * (flowRate / maxFlows)) / maxFlows := by
  have hmax : 0 < maxFlows := Nat.pos_of_ne_zero fun h => by simp [h] at hpos
  have hshare : flowRate / maxFlows * maxFlows ≤ flowRate := Nat.div_mul_le_self _ _
  calc time / flowRate ≤ time / (flowRate / maxFlows * maxFlows) :=
        Nat.div_le_div_left hshare (Nat.mul_pos hpos hmax)
    _ = 2 * time / (2 * (flowRate / maxFlows)) / maxFlows := by
        rw [Nat.div_div_eq_div_mul, Nat.mul_assoc, Nat.mul_div_mul_left _ _ (by omega)]
    _ ≤ _ := Nat.div_le_div_right (Nat.div_le_div_right (Nat.le_add_right _ _))

/-- How much larger depends on what the quotient drops. -/
theorem share_le_iff {flowRate maxFlows : Nat} (hpos : 0 < flowRate / maxFlows) (time : Nat) :
    (2 * time + flowRate / maxFlows) / (2 * (flowRate / maxFlows)) / maxFlows ≤
        time / flowRate + 1 ↔
      2 * (flowRate % maxFlows) * (time / flowRate + 2) + 2 * (time % flowRate) +
        flowRate / maxFlows < 4 * flowRate := by
  have hmax : 0 < maxFlows := Nat.pos_of_ne_zero fun h => by simp [h] at hpos
  have hrate : maxFlows * (flowRate / maxFlows) + flowRate % maxFlows = flowRate :=
    Nat.div_add_mod _ _
  have htime : flowRate * (time / flowRate) + time % flowRate = time := Nat.div_add_mod _ _
  -- with quotients and remainders named, both sides are polynomial
  generalize flowRate / maxFlows = rate at *
  generalize flowRate % maxFlows = dropped at *
  generalize time / flowRate = mean at *
  generalize time % flowRate = rest at *
  rw [Nat.div_div_eq_div_mul, ← Nat.lt_succ_iff,
    Nat.div_lt_iff_lt_mul (Nat.mul_pos (by omega) hmax)]
  subst hrate
  subst htime
  constructor
  · intro h
    nlinarith
  · intro h
    nlinarith

section Replaced

variable {flowRate maxFlows : Nat} {avgFlowSize : UInt32} {dist : FlowDist} {offRatio : Rat}

theorem setReplaceFlow_avgFlowArrivalTime (hmax : 1 ≤ maxFlows) :
    ((new flowRate avgFlowSize dist).setReplaceFlow maxFlows offRatio).avgFlowArrivalTime =
      (let time := bitTime (Workloads.new avgFlowSize dist).avgFlowSize.toNat
       let rate := flowRate / maxFlows
       if rate ≠ 0 ∧ 2 * time + rate < 2 ^ 64 * rate then
         some ((2 * time + rate) / (2 * rate) / maxFlows)
       else none) := by
  have hne : maxFlows ≠ 0 := by omega
  simp only [setReplaceFlow, new, if_neg hne, timeFromSec_divide]
  split_ifs <;> rfl

/-- The completion time is in range, and so is the time that a source sleeps. -/
theorem completion_lt {rate time : Nat} (hpos : 0 < rate)
    (hrange : 2 * time + rate < 2 ^ 64 * rate) : (2 * time + rate) / (2 * rate) < 2 ^ 63 := by
  rw [Nat.div_lt_iff_lt_mul (by omega)]
  omega

theorem avgOffTime_isSome (hmax : 1 ≤ maxFlows) (hoff : 0 ≤ offRatio)
    (h : LoadFits flowRate maxFlows (Workloads.new avgFlowSize dist).avgFlowSize.toNat) :
    (((new flowRate avgFlowSize dist).setReplaceFlow maxFlows offRatio).avgOffTime).isSome := by
  have hne : maxFlows ≠ 0 := by omega
  have hpos : 0 < flowRate / maxFlows := Nat.div_pos h.shared hmax
  have hpart : (0 : Rat) < 1 + offRatio := by linarith
  have hlt := completion_lt hpos h.range
  simp only [setReplaceFlow, new, if_neg hne, timeFromSec_divide]
  rw [if_pos ⟨hpos.ne', h.range⟩, Option.bind_some, divide, if_neg hpart.ne', Option.bind_some]
  refine llround64_part hlt (div_nonneg (mul_nonneg (Nat.cast_nonneg _) hoff) hpart.le) ?_
  rw [div_le_iff₀ hpart]
  exact mul_le_mul_of_nonneg_left (by linarith) (Nat.cast_nonneg _)

/-- The mean time between arrivals is preserved when the rate fits the flows, and only then. -/
theorem preserved_iff (hrate : 1 ≤ flowRate) (hsize : 1 ≤ avgFlowSize.toNat)
    (hmax : 1 ≤ maxFlows) :
    (new flowRate avgFlowSize dist).Preserved maxFlows offRatio ↔
      LoadFits flowRate maxFlows (Workloads.new avgFlowSize dist).avgFlowSize.toNat ∧
        offRatio ≠ -1 := by
  have hoff : 1 + offRatio ≠ 0 ↔ offRatio ≠ -1 := by
    constructor
    · rintro h rfl
      exact h (by norm_num)
    · intro h heq
      exact h (by linarith)
  -- the constructor's mean is the floor of a share; `setReplaceFlow` takes the quotient first
  constructor
  · rintro ⟨-, hpos, hoffne, before, after, hbefore, hafter, hle, hge⟩
    rw [new_avgFlowArrivalTime hrate hsize] at hbefore
    rw [setReplaceFlow_avgFlowArrivalTime hmax] at hafter
    dsimp only at hbefore hafter
    split_ifs at hbefore hafter with hfits hrange
    cases hbefore
    cases hafter
    have hpos' : 0 < flowRate / maxFlows := Nat.pos_of_ne_zero hrange.1
    refine ⟨⟨?_, hrange.2, (share_le_iff hpos' _).mp hge⟩, hoff.mp hoffne⟩
    exact (Nat.div_pos_iff.mp hpos').2
  · rintro ⟨h, hoffne⟩
    have hpos : 0 < flowRate / maxFlows := Nat.div_pos h.shared hmax
    have hle := div_le_share hpos (bitTime (Workloads.new avgFlowSize dist).avgFlowSize.toNat)
    -- the other way: the dropped bits are few, so the two floors are near
    have hge := (share_le_iff hpos _).mpr h.dropped
    have hlt := completion_lt hpos h.range
    have hshare := Nat.div_le_self
      ((2 * bitTime (Workloads.new avgFlowSize dist).avgFlowSize.toNat + flowRate / maxFlows) /
        (2 * (flowRate / maxFlows))) maxFlows
    refine ⟨by omega, hpos.ne', hoff.mpr hoffne, _, _, ?_, ?_, hle.trans (Nat.le_succ _), hge⟩
    · rw [new_avgFlowArrivalTime hrate hsize]
      exact if_pos (by omega)
    · rw [setReplaceFlow_avgFlowArrivalTime hmax]
      exact if_pos ⟨hpos.ne', h.range⟩

/-- Flows of 15 kB at 10 Gbps, 100 at a time. -/
theorem preserved_share : (new 10000000000 15000 .UNIFORM).Preserved 100 0 := by
  refine (preserved_iff (by decide) (by decide) (by decide)).mpr
    ⟨.of_dvd (by decide) (by decide) ?_, by decide⟩
  show 2 * bitTime (15000 : UInt32).toNat + _ < _
  decide

/-- The defaults of `conga_testbed`: a tenth of 2 * 8 links of 40 Gbps, flows of 15 kB, and
    `maxflow = -1`.  The share of a flow is 14 bits per second instead of 14.9.  At a rate below
    the number of flows it is zero. -/
theorem conga_testbed_load :
    ¬ (new 64000000000 15000 .UNIFORM).Preserved 4294967295 0 ∧
      ¬ (new 1000000000 15000 .UNIFORM).Preserved 4294967295 0 := by
  constructor
  · rintro ⟨-, -, -, before, after, hbefore, hafter, -, hge⟩
    rw [new_avgFlowArrivalTime (by decide) (by decide)] at hbefore
    rw [setReplaceFlow_avgFlowArrivalTime (by decide)] at hafter
    have hsize : (Workloads.new 15000 .UNIFORM).avgFlowSize.toNat = 15000 := by decide
    rw [hsize] at hbefore hafter
    have hbefore' : some 1875000 = some before := hbefore
    have hafter' : some 1995691 = some after := hafter
    cases hbefore'
    cases hafter'
    exact absurd hge (by decide)
  · exact fun h => h.rate_ne (by decide)

end Replaced

end FlowGenerator

end Htsim
end DatacenterNetworking
