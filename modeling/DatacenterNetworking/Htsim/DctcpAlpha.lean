/-
  DatacenterNetworking.Htsim.DctcpAlpha

  The DCTCP part of `TcpSrc::receivePacket` over windows of acks, in exact
  arithmetic.  At the end of a window the fraction of marked packets goes into
  `_alpha`, and the window is cut whenever `_alpha` is positive: also at the end of
  a window without marks, once there has been a mark before.

  The counters are 32-bit.  A window ends before they wrap unless `_dctcp_cwnd` is
  so large that it never ends (`totalPkts_lt`), so that the fraction is one.

  `reacts`: what the update does in a window without marks, in every run.
-/

import DatacenterNetworking.Htsim.TcpStep
import DatacenterNetworking.Lib.Lts
import Mathlib.Tactic.Linarith
import Mathlib.Tactic.Positivity
import Mathlib.Tactic.NormNum

namespace DatacenterNetworking
namespace Htsim

/-- DCTCP in exact arithmetic. -/
def exactTcp : TcpConfig Rat where
  enableDctcp := true
  float := exactDctcp

namespace TcpSrc

variable {D : Type} {now : Nat}

/-! ## Who touches the variables of DCTCP -/

/-- `_alpha`, `_marked_pkts`, `_total_pkts` and `_dctcp_cwnd`. -/
def dctcp (s : TcpSrc D) : D × Nat × Nat × Nat :=
  (s.alpha, s.markedPkts, s.totalPkts, s.dctcpCwnd)

@[simp] theorem armRto_dctcp (s : TcpSrc D) : (armRto now s).dctcp = s.dctcp := by
  simp only [armRto]
  split_ifs <;> rfl

@[simp] theorem sendLoop_dctcp (fuel : Nat) (s : TcpSrc D) :
    (sendLoop now fuel s).dctcp = s.dctcp := by
  induction fuel generalizing s with
  | zero => rfl
  | succ fuel ih =>
    have hsend : (sendNext now s).dctcp = s.dctcp := armRto_dctcp _
    simp only [sendLoop]
    split_ifs
    · exact hsend
    · rw [ih, hsend]
    · rfl

@[simp] theorem sendPackets_dctcp (s : TcpSrc D) : (sendPackets now s).dctcp = s.dctcp := by
  simp only [sendPackets]
  split_ifs
  · rfl
  · exact sendLoop_dctcp _ s

@[simp] theorem retransmitPacket_dctcp (s : TcpSrc D) :
    (retransmitPacket now s).dctcp = s.dctcp :=
  armRto_dctcp _

@[simp] theorem inflateWindow_dctcp (s : TcpSrc D) : (inflateWindow s).dctcp = s.dctcp := by
  simp only [inflateWindow]
  split_ifs <;> rfl

@[simp] theorem scheduleCheck_dctcp (s : TcpSrc D) : (scheduleCheck now s).dctcp = s.dctcp := rfl

@[simp] theorem timeout_dctcp (s : TcpSrc D) : (timeout now s).dctcp = s.dctcp := by
  rw [timeout, retransmitPacket_dctcp]
  rfl

/-- The rest of the handler of an ack leaves them alone. -/
theorem Processed.dctcp {a : DataAck} {s t : TcpSrc D} (h : Processed now a s t) :
    t.dctcp = s.dctcp := by
  cases h with
  | expected =>
    rw [sendPackets_dctcp, inflateWindow_dctcp]
    simp only [TcpSrc.dctcp, restartTimer]
  | recovered =>
    rw [sendPackets_dctcp]
    simp only [TcpSrc.dctcp, restartTimer]
  | partly =>
    rw [sendPackets_dctcp, retransmitPacket_dctcp]
    simp only [TcpSrc.dctcp, deflateWindow, restartTimer]
  | inflate =>
    rw [sendPackets_dctcp]
    simp only [TcpSrc.dctcp]
  | duplicate =>
    rw [sendPackets_dctcp]
    simp only [TcpSrc.dctcp]
  | unrecovered => simp only [TcpSrc.dctcp]
  | enter =>
    rw [retransmitPacket_dctcp]
    simp only [TcpSrc.dctcp]

/-! ## One ack -/

/-- The ack reaches the DCTCP part of the handler. -/
def Taken (now : Nat) (a : DataAck) (s : TcpSrc D) : Prop :=
  s.state ≠ .finish ∧ ¬ s.Completes now a.ackno ∧ s.lastAcked ≤ a.ackno

instance (a : DataAck) (s : TcpSrc D) : Decidable (Taken now a s) :=
  inferInstanceAs (Decidable (_ ∧ _ ∧ _))

theorem Taken.processed {cfg : TcpConfig D} {a : DataAck} {s : TcpSrc D} (h : Taken now a s) :
    Processed now a (updateDctcp cfg a.ecnRev (updateRtt now a.ts s))
      (receivePacket cfg now a s) := by
  rw [receivePacket_eq h.1 h.2.1, if_neg (Nat.not_lt.mpr h.2.2)]
  exact TcpSrc.processed now a _

/-- Another ack changes the state at most. -/
theorem receivePacket_dctcp {cfg : TcpConfig D} {a : DataAck} {s : TcpSrc D} (h : ¬ Taken now a s) :
    (receivePacket cfg now a s).dctcp = s.dctcp := by
  simp only [receivePacket]
  split_ifs with hfin hends hold
  · rfl
  · rfl
  · rfl
  · exact absurd ⟨hfin, hends, Nat.le_of_not_lt hold⟩ h

/-- The ack ends the window of data: `_total_pkts` is reset. -/
def Closes (s : TcpSrc D) : Prop := s.dctcpCwnd < u32 (u32 (s.totalPkts + 1) * MSS_BYTES)

instance (s : TcpSrc D) : Decidable (Closes s) := inferInstanceAs (Decidable (_ < _))

/-- What `countMark` counts. -/
theorem countMark_counts (ecnRev : Bool) (s : TcpSrc D) :
    (countMark ecnRev s).alpha = s.alpha ∧ (countMark ecnRev s).dctcpCwnd = s.dctcpCwnd ∧
      (countMark ecnRev s).totalPkts = u32 (s.totalPkts + 1) ∧
      (countMark ecnRev s).markedPkts =
        if ecnRev then u32 (s.markedPkts + 1) else s.markedPkts := by
  simp only [countMark]
  split_ifs <;> exact ⟨rfl, rfl, rfl, rfl⟩

/-- An ack without the mark is counted only. -/
theorem countMark_false (s : TcpSrc D) :
    countMark false s = { s with totalPkts := u32 (s.totalPkts + 1) } := rfl

theorem updateDctcp_closing {cfg : TcpConfig D} (henable : cfg.enableDctcp = true) (ecnRev : Bool)
    {s : TcpSrc D} (hclose : Closes s) :
    updateDctcp cfg ecnRev s = updateAlpha cfg (countMark ecnRev s) := by
  obtain ⟨-, hcwnd, htotal, -⟩ := countMark_counts ecnRev s
  simp only [updateDctcp, henable, if_true, hcwnd, htotal]
  exact if_pos hclose

theorem updateDctcp_going {cfg : TcpConfig D} (henable : cfg.enableDctcp = true) (ecnRev : Bool)
    {s : TcpSrc D} (hgo : ¬ Closes s) : updateDctcp cfg ecnRev s = countMark ecnRev s := by
  obtain ⟨-, hcwnd, htotal, -⟩ := countMark_counts ecnRev s
  simp only [updateDctcp, henable, if_true, hcwnd, htotal]
  exact if_neg hgo

/-- The variables of DCTCP at the end of a window. -/
theorem updateAlpha_dctcp (s : TcpSrc Rat) :
    (updateAlpha exactTcp s).alpha =
        s.alpha * (1 - 1 / 16) + (s.markedPkts : Rat) / s.totalPkts * (1 / 16) ∧
      (updateAlpha exactTcp s).markedPkts = 0 ∧ (updateAlpha exactTcp s).totalPkts = 0 := by
  simp only [updateAlpha]
  split_ifs <;> exact ⟨rfl, rfl, rfl⟩

/-- The window and the threshold at the end of a window, by the new estimate. -/
theorem updateAlpha_window (s : TcpSrc Rat) :
    (0 < (updateAlpha exactTcp s).alpha →
      (updateAlpha exactTcp s).cwnd =
          max (s.cwnd * (1 - (updateAlpha exactTcp s).alpha / 2) : Rat).floor.toNat MSS_BYTES ∧
        (updateAlpha exactTcp s).ssthresh = (updateAlpha exactTcp s).cwnd) ∧
    (¬ 0 < (updateAlpha exactTcp s).alpha →
      (updateAlpha exactTcp s).cwnd = s.cwnd ∧ (updateAlpha exactTcp s).ssthresh = s.ssthresh) := by
  rw [(updateAlpha_dctcp s).1]
  simp only [updateAlpha, exactTcp, exactDctcp, decide_eq_true_eq]
  constructor
  · intro hpos
    rw [if_pos hpos]
    exact ⟨rfl, rfl⟩
  · intro hzero
    rw [if_neg hzero]
    exact ⟨rfl, rfl⟩

/-! ## The 32-bit counters -/

/-- The counters of the window that is open, `marked` telling whether an ack of it carried the
    mark: no count so far would have ended it. -/
structure Counts (s : TcpSrc D) (marked : Bool) : Prop where
  le : s.markedPkts ≤ s.totalPkts
  going : ∀ k ≤ s.totalPkts, u32 (k * MSS_BYTES) ≤ s.dctcpCwnd
  marked_iff : marked = true ↔ 0 < s.markedPkts

/-- A window of data is a multiple of four bytes, so that this is never exceeded. -/
theorem u32_mul_mss_le (n : Nat) : u32 (n * MSS_BYTES) ≤ 2 ^ 32 - 4 := by
  have hmss : MSS_BYTES = 1500 := rfl
  rw [u32, hmss]
  omega

/-- The window ends before the counters wrap, or never. -/
theorem Counts.totalPkts_lt {s : TcpSrc D} {marked : Bool} (h : Counts s marked)
    (hlt : s.dctcpCwnd < 2 ^ 32 - 4) : s.totalPkts < 140302265 := by
  by_contra hge
  have hlast := h.going 140302265 (Nat.le_of_not_lt hge)
  have hvalue : u32 (140302265 * MSS_BYTES) = 2 ^ 32 - 4 := by decide
  omega

/-- A window that ends has counted right. -/
theorem counts_of_closes {s : TcpSrc D} {marked : Bool}
    (h : 2 ^ 32 - 4 ≤ s.dctcpCwnd ∨ Counts s marked) (hclose : Closes s) :
    Counts s marked ∧ u32 (s.totalPkts + 1) = s.totalPkts + 1 := by
  have hle := u32_mul_mss_le (u32 (s.totalPkts + 1))
  have hlt : s.dctcpCwnd < 2 ^ 32 - 4 := lt_of_lt_of_le hclose hle
  have hcounts := h.resolve_left (Nat.not_le.mpr hlt)
  have htotal := hcounts.totalPkts_lt hlt
  exact ⟨hcounts, Nat.mod_eq_of_lt (by omega)⟩

/-- The counts of the next ack, when the window does not end with it. -/
theorem counts_countMark {s : TcpSrc D} {marked : Bool}
    (h : 2 ^ 32 - 4 ≤ s.dctcpCwnd ∨ Counts s marked) (hgo : ¬ Closes s) (ecnRev : Bool) :
    2 ^ 32 - 4 ≤ (countMark ecnRev s).dctcpCwnd ∨
      Counts (countMark ecnRev s) (marked || ecnRev) := by
  obtain ⟨-, hcwnd, htotal, hmarked⟩ := countMark_counts ecnRev s
  rw [hcwnd]
  -- a window that large never ends; in any other the 32-bit counters do not wrap
  by_cases hlarge : 2 ^ 32 - 4 ≤ s.dctcpCwnd
  · exact Or.inl hlarge
  · have hcounts := h.resolve_left hlarge
    have hlt := hcounts.totalPkts_lt (Nat.lt_of_not_le hlarge)
    have hnext : u32 (s.totalPkts + 1) = s.totalPkts + 1 := Nat.mod_eq_of_lt (by omega)
    have hle := hcounts.le
    have hnextMarked : u32 (s.markedPkts + 1) = s.markedPkts + 1 := Nat.mod_eq_of_lt (by omega)
    rw [hnextMarked] at hmarked
    refine Or.inr ⟨?_, fun k hk => ?_, ?_⟩
    · rw [htotal, hmarked, hnext]
      split_ifs <;> omega
    · rw [htotal, hnext] at hk
      rw [hcwnd]
      rcases Nat.lt_or_eq_of_le hk with hlt | rfl
      · exact hcounts.going k (Nat.le_of_lt_succ hlt)
      · rw [← hnext]
        exact Nat.le_of_not_lt hgo
    · rw [hmarked, Bool.or_eq_true, hcounts.marked_iff]
      cases ecnRev with
      | false => simp
      | true => simp

/-- The new estimate lies between the old one and the fraction, and is zero when both are. -/
theorem smoothed_mem {alpha : Rat} {marked total : Nat} (halpha : 0 ≤ alpha ∧ alpha ≤ 1)
    (hle : marked ≤ total) (hpos : 0 < total) :
    (0 ≤ alpha * (1 - 1 / 16) + (marked : Rat) / total * (1 / 16) ∧
      alpha * (1 - 1 / 16) + (marked : Rat) / total * (1 / 16) ≤ 1) ∧
    (0 < alpha * (1 - 1 / 16) + (marked : Rat) / total * (1 / 16) ↔ 0 < alpha ∨ 0 < marked) := by
  -- a share in `[0, 1]`, so the average of the two is in `[0, 1]`
  have hfrac : 0 ≤ (marked : Rat) / total := by positivity
  have hone : (marked : Rat) / total ≤ 1 :=
    div_le_one_of_le₀ (Nat.cast_le.mpr hle) (Nat.cast_nonneg _)
  refine ⟨⟨by linarith [halpha.1], by linarith [halpha.2]⟩, ?_⟩
  have hmarked : 0 < (marked : Rat) / total ↔ 0 < marked := by
    rw [div_pos_iff_of_pos_right (Nat.cast_pos.mpr hpos), Nat.cast_pos]
  rw [← hmarked]
  constructor
  · intro hsum
    by_contra hnone
    obtain ⟨ha, hm⟩ := not_or.mp hnone
    linarith
  · rintro (ha | hm)
    · linarith
    · linarith [halpha.1]

/-- What holds of a source between two acks: `marked` and `earlier` tell whether an ack of the
    open window, and one of a window before it, carried the mark. -/
structure Estimates (s : TcpSrc Rat) (marked earlier : Bool) : Prop where
  alpha : 0 ≤ s.alpha ∧ s.alpha ≤ 1
  earlier_iff : earlier = true ↔ 0 < s.alpha
  window : 2 ^ 32 - 4 ≤ s.dctcpCwnd ∨ Counts s marked

section Estimates

variable {s t : TcpSrc Rat} {marked earlier : Bool}

/-- `Estimates` is about the variables of DCTCP only. -/
theorem Estimates.congr (h : Estimates s marked earlier) (heq : t.dctcp = s.dctcp) :
    Estimates t marked earlier := by
  simp only [dctcp, Prod.mk.injEq] at heq
  obtain ⟨halpha, hmarked, htotal, hcwnd⟩ := heq
  refine ⟨by rw [halpha]; exact h.alpha, by rw [halpha]; exact h.earlier_iff, ?_⟩
  rw [hcwnd]
  refine h.window.imp_right fun hc => ⟨?_, ?_, ?_⟩
  · rw [hmarked, htotal]
    exact hc.le
  · rw [htotal, hcwnd]
    exact hc.going
  · rw [hmarked]
    exact hc.marked_iff

/-- An ack within a window. -/
theorem Estimates.going (h : Estimates s marked earlier) (hgo : ¬ Closes s) (ecnRev : Bool) :
    Estimates (countMark ecnRev s) (marked || ecnRev) earlier where
  alpha := by
    rw [(countMark_counts ecnRev s).1]
    exact h.alpha
  earlier_iff := by
    rw [(countMark_counts ecnRev s).1]
    exact h.earlier_iff
  window := counts_countMark h.window hgo ecnRev

/-- The ack that ends it: the new estimate, and when it is positive. -/
theorem Estimates.alpha_closing (h : Estimates s marked earlier) (hclose : Closes s)
    (ecnRev : Bool) :
    (0 ≤ (updateAlpha exactTcp (countMark ecnRev s)).alpha ∧
      (updateAlpha exactTcp (countMark ecnRev s)).alpha ≤ 1) ∧
    (0 < (updateAlpha exactTcp (countMark ecnRev s)).alpha ↔
      (earlier || marked || ecnRev) = true) := by
  obtain ⟨hcounts, hnext⟩ := counts_of_closes h.window hclose
  obtain ⟨halpha, -, htotal, hmarked⟩ := countMark_counts ecnRev s
  have hle := hcounts.le
  have hnextMarked : u32 (s.markedPkts + 1) = s.markedPkts + 1 := by
    have hlt : u32 (s.totalPkts + 1) < 2 ^ 32 := u32_lt _
    exact Nat.mod_eq_of_lt (by omega)
  rw [hnext] at htotal
  rw [hnextMarked] at hmarked
  -- at most every packet of the window was marked, so the share is in `[0, 1]`
  have hle' : (countMark ecnRev s).markedPkts ≤ (countMark ecnRev s).totalPkts := by
    rw [hmarked, htotal]
    split_ifs <;> omega
  obtain ⟨hrange, hpos⟩ := smoothed_mem h.alpha hle' (by omega)
  rw [(updateAlpha_dctcp _).1, halpha]
  refine ⟨hrange, hpos.trans ?_⟩
  rw [hmarked, Bool.or_eq_true, Bool.or_eq_true, h.earlier_iff, hcounts.marked_iff, or_assoc]
  cases ecnRev with
  | false => simp
  | true => simp

theorem Estimates.closing (h : Estimates s marked earlier) (hclose : Closes s) (ecnRev : Bool) :
    Estimates (updateAlpha exactTcp (countMark ecnRev s)) false (earlier || marked || ecnRev) := by
  obtain ⟨hrange, hpos⟩ := h.alpha_closing hclose ecnRev
  obtain ⟨-, hmarked, htotal⟩ := updateAlpha_dctcp (countMark ecnRev s)
  refine ⟨hrange, hpos.symm, Or.inr ⟨?_, fun k hk => ?_, ?_⟩⟩
  · rw [hmarked, htotal]
  · rw [htotal] at hk
    rw [Nat.le_zero.mp hk, Nat.zero_mul]
    exact Nat.zero_le _
  · rw [hmarked]
    exact iff_of_false nofun (Nat.lt_irrefl 0)

/-- The update for an ack without the mark: within a window, at the end of the first window
    with no mark so far, and at the end of one after a mark. -/
theorem Estimates.unmarked (h : Estimates s marked earlier) :
    (¬ Closes s →
      (updateDctcp exactTcp false s).cwnd = s.cwnd ∧
        (updateDctcp exactTcp false s).ssthresh = s.ssthresh) ∧
    (Closes s → marked = false → earlier = false →
      (updateDctcp exactTcp false s).cwnd = s.cwnd ∧
        (updateDctcp exactTcp false s).ssthresh = s.ssthresh) ∧
    (Closes s → marked = false → earlier = true →
      (updateDctcp exactTcp false s).alpha = s.alpha * (15 / 16) ∧
      0 < (updateDctcp exactTcp false s).alpha ∧
      (updateDctcp exactTcp false s).cwnd =
        max (s.cwnd * (1 - (updateDctcp exactTcp false s).alpha / 2) : Rat).floor.toNat MSS_BYTES ∧
      (updateDctcp exactTcp false s).ssthresh = (updateDctcp exactTcp false s).cwnd) := by
  refine ⟨fun hgo => ?_, fun hclose hnone hfirst => ?_, fun hclose hnone hlater => ?_⟩
  · rw [updateDctcp_going rfl false hgo]
    exact ⟨rfl, rfl⟩
  · -- no mark so far: the estimate is still zero
    rw [updateDctcp_closing rfl false hclose]
    have hpos := (h.alpha_closing hclose false).2
    rw [hnone, hfirst] at hpos
    exact (updateAlpha_window _).2 (mt hpos.mp nofun)
  · rw [updateDctcp_closing rfl false hclose]
    have hpos := (h.alpha_closing hclose false).2.mpr (by rw [hlater]; rfl)
    obtain ⟨hcounts, -⟩ := counts_of_closes h.window hclose
    -- a window without marks: the estimate decays and stays positive
    have hzero : s.markedPkts = 0 :=
      Nat.eq_zero_of_not_pos (mt hcounts.marked_iff.mpr (by rw [hnone]; exact nofun))
    refine ⟨?_, hpos, (updateAlpha_window _).1 hpos⟩
    rw [(updateAlpha_dctcp _).1, countMark_false]
    simp only [hzero, Nat.cast_zero, zero_div, zero_mul, add_zero]
    exact congrArg (s.alpha * ·) (by norm_num)

end Estimates

end TcpSrc

/-! ## Runs -/

/-- The inputs of a source: an event, and an ack. -/
inductive SrcAct where
  | event (now nPackets : Nat)
  | ack (now : Nat) (a : DataAck)

/-- A source, with what its acks have carried: a mark in the window that is open, and one in a
    window before it. -/
structure Watched where
  src : TcpSrc Rat
  marked : Bool
  earlier : Bool

namespace Watched

open TcpSrc

/-- Before the first transmission. -/
def init (flowsize duration startTime endtime : Nat) : Watched :=
  ⟨TcpSrc.new exactTcp flowsize duration startTime endtime, false, false⟩

/-- Nothing is acked before the first transmission. -/
def step (w : Watched) : SrcAct → Option Watched
  | .event now nPackets => (doNextEvent now nPackets w.src).map fun src => { w with src := src }
  | .ack now a =>
      if w.src.state = .idle then none
      else
        let src := receivePacket exactTcp now a w.src
        if Taken now a w.src then
          if Closes w.src then some ⟨src, false, w.earlier || w.marked || a.ecnRev⟩
          else some ⟨src, w.marked || a.ecnRev, w.earlier⟩
        else some { w with src := src }

/-- A source with DCTCP, whatever acks it gets. -/
def system : Lts Watched SrcAct where
  step := step

/-- The DCTCP update for an ack. -/
def update (now : Nat) (a : DataAck) (w : Watched) : TcpSrc Rat :=
  updateDctcp exactTcp a.ecnRev (updateRtt now a.ts w.src)

/-- What the update does for an ack without the mark: nothing before the window ends; nothing
    then, unless there was a mark in it or before it.  After an earlier mark the estimate has
    decayed, is positive all the same, and cuts the window. -/
def Reacts (w : Watched) : SrcAct → Prop
  | .event _ _ => True
  | .ack now a =>
      Taken now a w.src → a.ecnRev = false →
        (¬ Closes w.src →
          (w.update now a).cwnd = w.src.cwnd ∧ (w.update now a).ssthresh = w.src.ssthresh) ∧
        (Closes w.src → w.marked = false → w.earlier = false →
          (w.update now a).cwnd = w.src.cwnd ∧ (w.update now a).ssthresh = w.src.ssthresh) ∧
        (Closes w.src → w.marked = false → w.earlier = true →
          (w.update now a).alpha = w.src.alpha * (15 / 16) ∧ 0 < (w.update now a).alpha ∧
          (w.update now a).cwnd =
            max (w.src.cwnd * (1 - (w.update now a).alpha / 2) : Rat).floor.toNat MSS_BYTES ∧
          (w.update now a).ssthresh = (w.update now a).cwnd)

/-- The invariant. -/
structure Smoothed (w : Watched) : Prop extends Estimates w.src w.marked w.earlier where
  idle : w.src.state = .idle → w.src.markedPkts = 0 ∧ w.src.totalPkts = 0 ∧ w.marked = false

theorem smoothed_init (flowsize duration startTime endtime : Nat) :
    Smoothed (init flowsize duration startTime endtime) where
  alpha := ⟨le_rfl, zero_le_one⟩
  earlier_iff := iff_of_false nofun (lt_irrefl (0 : Rat))
  window := by
    refine Or.inr ⟨le_rfl, fun k hk => ?_, iff_of_false nofun (Nat.lt_irrefl 0)⟩
    rw [Nat.le_zero.mp hk]
    exact le_rfl
  idle := fun _ => ⟨rfl, rfl, rfl⟩

theorem updateRtt_dctcp (now ts : Nat) (s : TcpSrc Rat) : (updateRtt now ts s).dctcp = s.dctcp := by
  obtain ⟨rtt, mdev, rto, heq, -⟩ := @updateRtt_eq _ now ts s
  rw [heq]
  rfl

theorem closes_updateRtt (now ts : Nat) (s : TcpSrc Rat) :
    Closes (updateRtt now ts s) ↔ Closes s := by
  obtain ⟨rtt, mdev, rto, heq, -⟩ := @updateRtt_eq _ now ts s
  rw [heq]
  rfl

theorem updateRtt_window (now ts : Nat) (s : TcpSrc Rat) :
    (updateRtt now ts s).cwnd = s.cwnd ∧ (updateRtt now ts s).ssthresh = s.ssthresh ∧
      (updateRtt now ts s).alpha = s.alpha := by
  obtain ⟨rtt, mdev, rto, heq, -⟩ := @updateRtt_eq _ now ts s
  rw [heq]
  exact ⟨rfl, rfl, rfl⟩

theorem smoothed_event {w : Watched} (h : Smoothed w) {now nPackets : Nat} {src : TcpSrc Rat}
    (hnext : doNextEvent now nPackets w.src = some src) : Smoothed { w with src := src } := by
  have hevent := nextEvent hnext
  refine ⟨?_, fun hidle => absurd hidle hevent.started⟩
  cases hevent with
  | start hidle =>
    -- the first window of data
    obtain ⟨hmarked, htotal, hnone⟩ := h.idle hidle
    have hstart : Estimates
        { w.src with state := .slowStart, cwnd := 2 * MSS_BYTES, dctcpCwnd := 2 * MSS_BYTES }
        w.marked w.earlier := by
      refine ⟨h.alpha, h.earlier_iff, Or.inr ⟨?_, fun k hk => ?_, ?_⟩⟩
      · simp only [hmarked, htotal, le_refl]
      · simp only [htotal] at hk
        rw [Nat.le_zero.mp hk, Nat.zero_mul]
        exact Nat.zero_le _
      · simp only [hmarked, hnone, Nat.lt_irrefl, Bool.false_eq_true]
    refine hstart.congr ?_
    rw [scheduleCheck_dctcp, sendPackets_dctcp]
  | expire =>
    refine h.toEstimates.congr ?_
    rw [scheduleCheck_dctcp, timeout_dctcp]
  | check => exact h.toEstimates.congr (scheduleCheck_dctcp _)

/-- An ack that is taken: its update keeps the estimates, and the rest of the handler does. -/
theorem estimates_taken {w : Watched} (h : Smoothed w) {now : Nat} {a : DataAck}
    {src : TcpSrc Rat} (hproc : Processed now a (w.update now a) src) :
    (Closes w.src → Estimates src false (w.earlier || w.marked || a.ecnRev)) ∧
    (¬ Closes w.src → Estimates src (w.marked || a.ecnRev) w.earlier) := by
  have hrtt := h.toEstimates.congr (updateRtt_dctcp now a.ts w.src)
  constructor
  · intro hclose
    have hclose' := (closes_updateRtt now a.ts w.src).mpr hclose
    refine (hrtt.closing hclose' a.ecnRev).congr ?_
    rw [hproc.dctcp, update, updateDctcp_closing rfl a.ecnRev hclose']
  · intro hgo
    have hgo' := mt (closes_updateRtt now a.ts w.src).mp hgo
    refine (hrtt.going hgo' a.ecnRev).congr ?_
    rw [hproc.dctcp, update, updateDctcp_going rfl a.ecnRev hgo']

theorem smoothed_step (w : Watched) (act : SrcAct) (w' : Watched) (h : Smoothed w)
    (hstep : system.step w act = some w') : Smoothed w' := by
  cases act with
  | event now nPackets =>
    obtain ⟨src, hnext, rfl⟩ := Option.map_eq_some_iff.mp hstep
    exact smoothed_event h hnext
  | ack now a =>
    change (if w.src.state = .idle then none else _) = some w' at hstep
    split_ifs at hstep with hidle htaken hclose
    all_goals
      have hstarted := (received exactTcp now a w.src).started hidle
      cases hstep
    · exact ⟨(estimates_taken h htaken.processed).1 hclose, fun hs => absurd hs hstarted⟩
    · exact ⟨(estimates_taken h htaken.processed).2 hclose, fun hs => absurd hs hstarted⟩
    · exact ⟨h.toEstimates.congr (receivePacket_dctcp htaken), fun hs => absurd hs hstarted⟩

/-- The update for an ack without the mark, in a state of a run. -/
theorem reacts_of_smoothed {w : Watched} (h : Smoothed w) (act : SrcAct) : w.Reacts act := by
  cases act with
  | event => trivial
  | ack now a =>
    intro _ hplain
    have hupdate := (h.toEstimates.congr (updateRtt_dctcp now a.ts w.src)).unmarked
    obtain ⟨hcwnd, hthresh, halpha⟩ := updateRtt_window now a.ts w.src
    rw [hcwnd, hthresh, halpha, closes_updateRtt] at hupdate
    simp only [update, hplain]
    exact hupdate

/-- In every run of a source with DCTCP the estimate is a fraction, and the update does what
    `Reacts` says. -/
theorem reacts (flowsize duration startTime endtime : Nat) (acts : List SrcAct) :
    system.Always (fun w => 0 ≤ w.src.alpha ∧ w.src.alpha ≤ 1)
      (init flowsize duration startTime endtime) acts ∧
    system.Along Reacts (init flowsize duration startTime endtime) acts := by
  have hinit := smoothed_init flowsize duration startTime endtime
  have hfree : system.Along (fun _ _ => True) (init flowsize duration startTime endtime) acts :=
    Lts.along_of_step (fun _ _ _ _ => trivial) acts
  constructor
  · exact Lts.always_of_along (fun w act w' h _ => smoothed_step w act w' h) (fun _ h => h.alpha)
      hinit hfree
  · exact Lts.along_of_along
      (fun w act w' h _ hstep => ⟨smoothed_step w act w' h hstep, reacts_of_smoothed h act⟩) hinit
      hfree

/-- Three marked acks end a window, and three without the mark the next. -/
def markedThenClean : List SrcAct :=
  .event 0 0 ::
    ([(1500, true), (3000, true), (4500, true), (6000, false), (7500, false), (9000, false)].map
      fun a => .ack 1000 { seqno := 1, ackno := a.1, ts := 0, ecnRev := a.2 })

/-- No reduction in a window without marks. -/
def NeverCuts (w : Watched) : SrcAct → Prop
  | .event _ _ => True
  | .ack now a =>
      Taken now a w.src → a.ecnRev = false → w.marked = false →
        w.src.cwnd ≤ (w.update now a).cwnd ∧ w.src.ssthresh ≤ (w.update now a).ssthresh

instance (w : Watched) : ∀ act : SrcAct, Decidable (w.NeverCuts act)
  | .event _ _ => inferInstanceAs (Decidable True)
  | .ack _ _ => inferInstanceAs (Decidable (_ → _ → _ → _))

/-- The window is cut at the end of a window of data without marks. -/
theorem cut_without_marks :
    ¬ ∀ acts, system.Along NeverCuts (init 0 0 0 0) acts := by
  intro hall
  have hcut : ¬ system.Along NeverCuts (init 0 0 0 0) markedThenClean := by decide +kernel
  exact hcut (hall markedThenClean)

end Watched

end Htsim
end DatacenterNetworking
