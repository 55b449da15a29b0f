/-
  DatacenterNetworking.Htsim.TcpTimer

  Does a `TcpSrc` that has not finished always have its retransmission timer running?
  An ack of everything sent stops the timer, and `sendPackets` starts it again if it
  sends something; for that the window must be at least a segment.

    * `Timed`   — the timer runs, and while something is in flight outside fast
      recovery the window is at least a segment;
    * `Grows`   — the one thing that breaks it: an ack that finds `_cwnd` at `2 ^ 32 - 1`
      and wraps it to zero;
    * `running_of_growsAlong` — without such an ack the timer always runs.

  The times are below `2 ^ 64`, and so is `now + _rto` (`DataPacket`): a sum that wraps to zero
  would stop the timer.
-/

import DatacenterNetworking.Htsim.TcpStep

namespace DatacenterNetworking
namespace Htsim
namespace TcpSrc

variable {D : Type} {cfg : TcpConfig D} {now : Nat}

/-- A new ack outside fast recovery does not wrap the window. -/
def Grows (ackno : Nat) (s : TcpSrc D) : Prop :=
  s.lastAcked < ackno → s.state ≠ .fastRecov → s.cwnd + 1 < 2 ^ 32 ∨ newlyAcked ackno s < 0

instance (ackno : Nat) (s : TcpSrc D) : Decidable (Grows ackno s) :=
  inferInstanceAs (Decidable (_ → _))

/-- What holds of the timer in a run without wrapping acks. -/
structure Timed (s : TcpSrc D) : Prop where
  rto : 0 < s.rto
  cwnd : s.cwnd < 2 ^ 32
  ssthresh : MSS_BYTES ≤ s.ssthresh ∧ s.ssthresh < 2 ^ 32
  idle : s.state = .idle → s.highestSent = 0 ∧ s.lastAcked = 0
  slow : s.state = .slowStart → MSS_BYTES ≤ s.cwnd
  /-- The window may be smaller while nothing is in flight: after an ack from beyond
      `_highest_sent` ends fast recovery. -/
  window : s.state = .congAvoid → s.lastAcked < s.highestSent → MSS_BYTES ≤ s.cwnd
  flight : s.highestSent < s.lastAcked + 2 ^ 32
  timer : s.state ≠ .idle → s.state ≠ .finish → s.rtoTimeout ≠ 0

/-- After sending with a window of a segment. -/
theorem timed_sendPackets {s : TcpSrc D} (hrto : 0 < s.rto) (hlt : s.cwnd < 2 ^ 32)
    (hthresh : MSS_BYTES ≤ s.ssthresh ∧ s.ssthresh < 2 ^ 32) (hidle : s.state ≠ .idle)
    (hslow : s.state = .slowStart → MSS_BYTES ≤ s.cwnd)
    (hwindow : s.state = .congAvoid → MSS_BYTES ≤ s.cwnd ∨ s.highestSent ≤ s.lastAcked)
    (hflight : s.highestSent < s.lastAcked + 2 ^ 32)
    (hhigh : MSS_BYTES ∣ s.highestSent) (hlow : MSS_BYTES ∣ s.lastAcked)
    (htimer : s.rtoTimeout ≠ 0 ∨ s.highestSent < (sendPackets now s).highestSent) :
    Timed (sendPackets now s) := by
  have hsends : Sends s (sendPackets now s) := sends_sendPackets s
  have hcwnd := hsends.cwnd
  have hlast := hsends.lastAcked
  have hstate := hsends.state
  constructor
  · rw [hsends.rto]
    exact hrto
  · rw [hcwnd]
    exact hlt
  · rw [hsends.ssthresh]
    exact hthresh
  · exact fun h => absurd (hstate.symm.trans h) hidle
  · rw [hcwnd, hstate]
    exact hslow
  · rw [hcwnd, hlast, hstate]
    intro hstate' hahead
    -- a smaller window sends nothing beyond what is acked
    by_contra hsmall
    rcases hwindow hstate' with hseg | hle
    · exact hsmall hseg
    · have hnone := @sendPackets_le_lastAcked _ now s (Nat.lt_of_not_le hsmall) hle hhigh hlow
      omega
  · rw [hlast]
    rcases hsends.within with heq | hwithin
    · omega
    · omega
  · exact fun _ _ => hsends.timer hrto htimer

/-- When the timer may have been stopped by an ack of everything sent, a window of a segment
    starts it again. -/
theorem timed_sendPackets_of_acked {s : TcpSrc D} (hrto : 0 < s.rto) (hlt : s.cwnd < 2 ^ 32)
    (hthresh : MSS_BYTES ≤ s.ssthresh ∧ s.ssthresh < 2 ^ 32) (hidle : s.state ≠ .idle)
    (hflight : s.highestSent < s.lastAcked + 2 ^ 32)
    (hhigh : MSS_BYTES ∣ s.highestSent) (hlow : MSS_BYTES ∣ s.lastAcked)
    (hflow : 0 < s.flowsize → s.lastAcked < s.flowsize)
    (hwindow : MSS_BYTES ≤ s.cwnd ∨ s.state ≠ .slowStart ∧ s.highestSent < s.lastAcked)
    (htimer : s.rtoTimeout ≠ 0 ∨ s.lastAcked = s.highestSent) : Timed (sendPackets now s) := by
  apply timed_sendPackets hrto hlt hthresh hidle _ _ hflight hhigh hlow
  · -- the timer
    rcases htimer with hruns | hacked
    · exact Or.inl hruns
    · rcases hwindow with hseg | ⟨-, hover⟩
      · have hahead := @lastAcked_lt_sendPackets _ now s hseg hflow
        exact Or.inr (hacked.symm.trans_lt hahead)
      · omega
  · intro hslow
    exact hwindow.resolve_right fun hover => hover.1 hslow
  · exact fun _ => hwindow.imp_right fun hover => hover.2.le

theorem timed_inflateWindow {s : TcpSrc D} (hrto : 0 < s.rto) (hlt : s.cwnd < 2 ^ 32)
    (hthresh : MSS_BYTES ≤ s.ssthresh ∧ s.ssthresh < 2 ^ 32) (hidle : s.state ≠ .idle)
    (hflight : s.highestSent < s.lastAcked + 2 ^ 32)
    (hhigh : MSS_BYTES ∣ s.highestSent) (hlow : MSS_BYTES ∣ s.lastAcked)
    (hflow : 0 < s.flowsize → s.lastAcked < s.flowsize)
    (hwindow : MSS_BYTES ≤ s.cwnd ∨ s.state ≠ .slowStart ∧ s.highestSent < s.lastAcked)
    (htimer : s.rtoTimeout ≠ 0 ∨ s.lastAcked = s.highestSent)
    (hgrows : s.cwnd + 1 < 2 ^ 32 ∨ newlyAcked s.lastAcked s < 0) :
    Timed (sendPackets now (inflateWindow s)) := by
  have hwrap : u32 (s.cwnd + increment s) < 2 ^ 32 := u32_lt _
  rw [inflateWindow_eq hlt]
  refine timed_sendPackets_of_acked hrto hwrap hthresh hidle hflight hhigh hlow hflow ?_ htimer
  rcases hwindow with hseg | hover
  · left
    have hsum := add_increment_lt hseg hlt hthresh.2 hgrows
    show MSS_BYTES ≤ u32 (s.cwnd + increment s)
    rw [u32, Nat.mod_eq_of_lt hsum]
    exact hseg.trans (Nat.le_add_right _ _)
  · exact Or.inr hover

/-- A retransmission starts the timer. -/
theorem timed_retransmitPacket {s : TcpSrc D} (hrto : 0 < s.rto) (hlt : s.cwnd < 2 ^ 32)
    (hthresh : MSS_BYTES ≤ s.ssthresh ∧ s.ssthresh < 2 ^ 32) (hidle : s.state ≠ .idle)
    (hslow : s.state = .slowStart → MSS_BYTES ≤ s.cwnd) (hcong : s.state ≠ .congAvoid)
    (hflight : s.highestSent < s.lastAcked + 2 ^ 32) : Timed (retransmitPacket now s) := by
  obtain ⟨timer, heq, htimer⟩ := retransmitPacket_eq now s
  rw [heq]
  exact ⟨hrto, hlt, hthresh, fun h => absurd h hidle, hslow, fun h => absurd h hcong, hflight,
    fun _ _ => htimer hrto⟩

/-- In fast recovery one comes with what the window allows. -/
theorem timed_resend {s : TcpSrc D} (hrto : 0 < s.rto) (hlt : s.cwnd < 2 ^ 32)
    (hthresh : MSS_BYTES ≤ s.ssthresh ∧ s.ssthresh < 2 ^ 32) (hfast : s.state = .fastRecov)
    (hflight : s.highestSent < s.lastAcked + 2 ^ 32)
    (hhigh : MSS_BYTES ∣ s.highestSent) (hlow : MSS_BYTES ∣ s.lastAcked) :
    Timed (sendPackets now (retransmitPacket now s)) := by
  obtain ⟨timer, heq, htimer⟩ := retransmitPacket_eq now s
  rw [heq]
  refine timed_sendPackets hrto hlt hthresh ?_ ?_ ?_ hflight hhigh hlow (Or.inl (htimer hrto))
  · rw [hfast]
    exact nofun
  · rw [hfast]
    exact nofun
  · rw [hfast]
    exact nofun

/-- A new ack leaves the timer running, unless everything sent is acked. -/
theorem restartTimer_runs {ackno : Nat} {s : TcpSrc D} (hrto : 0 < s.rto) :
    (restartTimer now ackno s).rtoTimeout ≠ 0 ∨ ackno = s.highestSent := by
  by_cases hall : ackno = s.highestSent
  · exact Or.inr hall
  · left
    simp only [restartTimer]
    rw [if_neg hall]
    omega

theorem Processed.timed {a : DataAck} {s t : TcpSrc D} (h : Processed now a s t)
    (ht : Timed s) (hidle : s.state ≠ .idle) (hfin : s.state ≠ .finish)
    (hflow : 0 < s.flowsize → a.ackno < s.flowsize) (hlow : s.lastAcked ≤ a.ackno)
    (hseg : s.Segmented) (hack : MSS_BYTES ∣ a.ackno) (hgrows : Grows a.ackno s) : Timed t := by
  have hmss : MSS_BYTES = 1500 := rfl
  have hrto := ht.rto
  have hlt := ht.cwnd
  have hthresh := ht.ssthresh
  have hflight := ht.flight
  have hflight' : s.highestSent < a.ackno + 2 ^ 32 := by omega
  have hhigh := hseg.highestSent
  have hla := hseg.lastAcked
  have hruns := ht.timer hidle hfin
  -- outside fast recovery the window is small only if nothing is in flight
  have hsmall : s.state ≠ .fastRecov →
      MSS_BYTES ≤ s.cwnd ∨ s.state ≠ .slowStart ∧ s.highestSent ≤ s.lastAcked := by
    intro hstate
    by_cases hslow : s.state = .slowStart
    · exact Or.inl (ht.slow hslow)
    · have hcong : s.state = .congAvoid := by
        cases hs : s.state with
        | idle => exact absurd hs hidle
        | slowStart => exact absurd hs hslow
        | congAvoid => rfl
        | fastRecov => exact absurd hs hstate
        | finish => exact absurd hs hfin
      by_cases hahead : s.lastAcked < s.highestSent
      · exact Or.inl (ht.window hcong hahead)
      · exact Or.inr ⟨hslow, Nat.le_of_not_lt hahead⟩
  cases h with
  | expected hnew hstate =>
    refine timed_inflateWindow hrto hlt hthresh hidle hflight' hhigh hack hflow ?_
      (restartTimer_runs hrto) (hgrows hnew hstate)
    exact (hsmall hstate).imp_right fun hover => ⟨hover.1, hover.2.trans_lt hnew⟩
  | recovered hnew hstate hfull =>
    have hgap := add_mss_le_of_dvd hla hack hnew
    refine timed_sendPackets_of_acked hrto ?_ hthresh nofun hflight' hhigh hack hflow ?_
      (restartTimer_runs hrto)
    · exact (min_le_left _ _).trans_lt hthresh.2
    · by_cases hover : s.highestSent < a.ackno
      · exact Or.inr ⟨nofun, hover⟩
      · -- the flight size is exact
        left
        show MSS_BYTES ≤ min s.ssthresh (u32 (u32 (sub64 s.highestSent a.ackno) + MSS_BYTES))
        rw [flightsize_add (Nat.le_of_not_lt hover) (by omega)]
        exact le_min hthresh.1 (Nat.le_add_left _ _)
  | partly hnew hstate hpart =>
    have hcut := deflateWindow_eq (s := restartTimer now a.ackno s) hlow
    rw [hcut]
    exact timed_resend hrto (u32_lt _) hthresh hstate hflight' hhigh hack
  | inflate hdup hstate =>
    refine timed_sendPackets hrto (u32_lt _) hthresh hidle ?_ ?_ hflight hhigh hla
      (Or.inl hruns)
    · rw [hstate]
      exact nofun
    · rw [hstate]
      exact nofun
  | duplicate hdup hstate =>
    exact timed_sendPackets hrto hlt hthresh hidle ht.slow
      (fun _ => (hsmall hstate).imp_right And.right) hflight hhigh hla (Or.inl hruns)
  | unrecovered =>
    exact ⟨hrto, hlt, hthresh, ht.idle, ht.slow, ht.window, hflight, ht.timer⟩
  | enter hdup hstate =>
    have hhalf : MSS_BYTES ≤ max (s.cwnd / 2) (MSS_BYTES * 2) ∧
        max (s.cwnd / 2) (MSS_BYTES * 2) < 2 ^ 32 := by
      omega
    exact timed_retransmitPacket hrto (u32_lt _) hhalf nofun nofun nofun hflight

/-! ## Events, and the estimates -/

theorem timed_scheduleCheck {s : TcpSrc D} (h : Timed s) : Timed (scheduleCheck now s) := by
  obtain ⟨times, heq⟩ := scheduleCheck_eq now s
  rw [heq]
  exact ⟨h.rto, h.cwnd, h.ssthresh, h.idle, h.slow, h.window, h.flight, h.timer⟩

theorem timed_timeout {s : TcpSrc D} (h : Timed s) : Timed (timeout now s) := by
  have hmss : MSS_BYTES = 1500 := rfl
  have hrto := h.rto
  have hlt := h.cwnd
  have hthresh := h.ssthresh.2
  refine timed_retransmitPacket ?_ ?_ ?_ nofun (fun _ => le_rfl) nofun ?_
  · show 0 < s.rto * 2
    omega
  · show MSS_BYTES < 2 ^ 32
    omega
  · -- half of what the window was
    show MSS_BYTES ≤ max (_ / 2) (MSS_BYTES * 2) ∧ max (_ / 2) (MSS_BYTES * 2) < 2 ^ 32
    split_ifs
    · omega
    · omega
  · show s.lastAcked + MSS_BYTES < s.lastAcked + 2 ^ 32
    omega

theorem NextEvent.timed {s t : TcpSrc D} (h : NextEvent now s t) (ht : Timed s)
    (hseg : s.Segmented) : Timed t := by
  have hmss : MSS_BYTES = 1500 := rfl
  cases h with
  | start hstate =>
    obtain ⟨hhigh, hlow⟩ := ht.idle hstate
    apply timed_scheduleCheck
    refine timed_sendPackets_of_acked ht.rto ?_ ht.ssthresh nofun ht.flight hseg.highestSent
      hseg.lastAcked ?_ (Or.inl ?_) (Or.inr (hlow.trans hhigh.symm))
    · show 2 * MSS_BYTES < 2 ^ 32
      omega
    · show 0 < s.flowsize → s.lastAcked < s.flowsize
      omega
    · show MSS_BYTES ≤ 2 * MSS_BYTES
      omega
  | expire =>
    apply timed_scheduleCheck
    exact timed_timeout ht
  | check => exact timed_scheduleCheck ht

theorem countMark_timed {ecnRev : Bool} {s : TcpSrc D} (h : Timed s) :
    Timed (countMark ecnRev s) := by
  simp only [countMark]
  split_ifs with hmark hslow
  · -- slow start ends at the window it has reached
    have hidle : s.state ≠ .idle := fun hidle => by cases hslow.1.symm.trans hidle
    have hfin : s.state ≠ .finish := fun hfin => by cases hslow.1.symm.trans hfin
    refine ⟨h.rto, h.cwnd, ⟨h.slow hslow.1, h.cwnd⟩, fun hout => ?_, fun hout => ?_,
      fun _ _ => h.slow hslow.1, h.flight, fun _ _ => h.timer hidle hfin⟩
    · cases hout
    · cases hout
  · exact ⟨h.rto, h.cwnd, h.ssthresh, h.idle, h.slow, h.window, h.flight, h.timer⟩
  · exact ⟨h.rto, h.cwnd, h.ssthresh, h.idle, h.slow, h.window, h.flight, h.timer⟩

theorem updateAlpha_timed (hscale : ∀ cwnd alpha, cfg.float.scale cwnd alpha < 2 ^ 32)
    {s : TcpSrc D} (h : Timed s) : Timed (updateAlpha cfg s) := by
  have hmss : MSS_BYTES = 1500 := rfl
  by_cases hpos : cfg.float.pos (cfg.float.update s.alpha s.markedPkts s.totalPkts) = true
  · have hcwnd : max (cfg.float.scale s.cwnd
        (cfg.float.update s.alpha s.markedPkts s.totalPkts)) MSS_BYTES < 2 ^ 32 :=
      max_lt (hscale _ _) (by omega)
    simp only [updateAlpha, if_pos hpos]
    exact ⟨h.rto, hcwnd, ⟨le_max_right _ _, hcwnd⟩, h.idle, fun _ => le_max_right _ _,
      fun _ _ => le_max_right _ _, h.flight, h.timer⟩
  · simp only [updateAlpha, if_neg hpos]
    exact ⟨h.rto, h.cwnd, h.ssthresh, h.idle, h.slow, h.window, h.flight, h.timer⟩

theorem updateDctcp_timed (hscale : ∀ cwnd alpha, cfg.float.scale cwnd alpha < 2 ^ 32)
    {ecnRev : Bool} {s : TcpSrc D} (h : Timed s) : Timed (updateDctcp cfg ecnRev s) := by
  simp only [updateDctcp]
  split_ifs
  · exact updateAlpha_timed hscale (countMark_timed h)
  · exact countMark_timed h
  · exact h

/-- Whether an ack is taken, finishes the flow or is ignored. -/
theorem Received.timed (hscale : ∀ cwnd alpha, cfg.float.scale cwnd alpha < 2 ^ 32)
    {a : DataAck} {s t : TcpSrc D} (h : Received cfg now a s t) (ht : Timed s)
    (hidle : s.state ≠ .idle) (hseg : s.Segmented) (hack : MSS_BYTES ∣ a.ackno)
    (hgrows : s.state ≠ .finish → ¬ s.Completes now a.ackno → s.lastAcked ≤ a.ackno →
      Grows a.ackno (updateDctcp cfg a.ecnRev (updateRtt now a.ts s))) : Timed t := by
  cases h with
  | ignored => exact ht
  | finishes =>
    have hout : Tcp.FlowStatus.finish ≠ .idle ∧ Tcp.FlowStatus.finish ≠ .slowStart ∧
        Tcp.FlowStatus.finish ≠ .congAvoid := ⟨nofun, nofun, nofun⟩
    exact ⟨ht.rto, ht.cwnd, ht.ssthresh, fun h => absurd h hout.1, fun h => absurd h hout.2.1,
      fun h => absurd h hout.2.2, ht.flight, fun _ hfin => absurd rfl hfin⟩
  | taken hfin hgo hlow hproc =>
    have hgrows' := hgrows hfin hgo hlow
    -- the estimates leave the timer and the sender alone
    obtain ⟨rtt, mdev, rto, hrtt, hrto⟩ := @updateRtt_eq _ now a.ts s
    have hsource : (updateDctcp cfg a.ecnRev (updateRtt now a.ts s)).toDataSource =
        s.toDataSource := by simp
    have hupdated : Timed (updateDctcp cfg a.ecnRev (updateRtt now a.ts s)) := by
      apply updateDctcp_timed hscale
      rw [hrtt]
      exact ⟨hrto ht.rto, ht.cwnd, ht.ssthresh, ht.idle, ht.slow, ht.window, ht.flight, ht.timer⟩
    have hflow : 0 < s.flowsize → a.ackno < s.flowsize := by
      unfold DataSource.Completes at hgo
      omega
    refine hproc.timed hupdated ?_ ?_ ?_ ?_ ?_ hack hgrows'
    · apply updateDctcp_started
      rw [updateRtt_state]
      exact hidle
    · apply updateDctcp_open
      rw [updateRtt_state]
      exact hfin
    · rw [hsource]
      exact hflow
    · rw [hsource]
      exact hlow
    · rw [hsource]
      exact hseg

/-- The loop of an unlimited flow sends as many segments as fit into the window. -/
theorem sendLoop_sent {fuel : Nat} {s : TcpSrc D} (hflow : s.flowsize = 0)
    (hfuel : fuel * MSS_BYTES ≤ s.lastAcked + s.cwnd - s.highestSent) :
    (sendLoop now fuel s).highestSent = s.highestSent + fuel * MSS_BYTES ∧
      (sendLoop now fuel s).sent.map Sent.pkt = s.sent.map Sent.pkt ++
        (List.range fuel).map
          fun i => DataPacket.newpkt (s.highestSent + i * MSS_BYTES + 1) now := by
  -- each round sends one segment, since the window has room for `fuel` of them
  induction fuel generalizing s with
  | zero =>
    rw [Nat.zero_mul, Nat.add_zero, List.range_zero, List.map_nil, List.append_nil]
    exact ⟨rfl, rfl⟩
  | succ fuel ih =>
    have hpos : 0 < MSS_BYTES := by decide
    rw [Nat.succ_mul] at hfuel
    have hfits : s.highestSent + MSS_BYTES ≤ s.lastAcked + s.cwnd := by omega
    have hsends : Sends s (sendNext now s) := sends_sendNext hfits
    have hsource := @sendNext_source _ now s
    have hhigh : (sendNext now s).highestSent = s.highestSent + MSS_BYTES := by rw [hsource]
    have hsent : (sendNext now s).sent.map Sent.pkt =
        s.sent.map Sent.pkt ++ [DataPacket.newpkt (s.highestSent + 1) now] := by
      rw [hsource]
      exact List.map_append
    have hflow' : (sendNext now s).flowsize = 0 := hsends.flowsize.trans hflow
    have hmore : ¬ (sendNext now s).AllSent := by
      rw [DataSource.AllSent, hflow']
      omega
    obtain ⟨ihhigh, ihsent⟩ := ih hflow' (by rw [hhigh, hsends.lastAcked, hsends.cwnd]; omega)
    simp only [sendLoop]
    rw [if_pos hfits, if_neg hmore]
    constructor
    · rw [ihhigh, hhigh, Nat.succ_mul]
      omega
    · -- the first segment, and those of the remaining rounds one further on
      have hshift : (fun i => DataPacket.newpkt (s.highestSent + i * MSS_BYTES + 1) now) ∘
          Nat.succ =
            fun i => DataPacket.newpkt (s.highestSent + MSS_BYTES + i * MSS_BYTES + 1) now := by
        funext i
        show DataPacket.newpkt (s.highestSent + (i + 1) * MSS_BYTES + 1) now = _
        rw [Nat.succ_mul, Nat.add_comm (i * MSS_BYTES), ← Nat.add_assoc]
      rw [ihsent, hsent, hhigh, List.append_assoc, List.range_succ_eq_map, List.map_cons,
        List.map_map, hshift, Nat.zero_mul, Nat.add_zero, List.singleton_append]

end TcpSrc

namespace Flow

variable {D : Type} {cfg : TcpConfig D}

/-! ## The timer along a run -/

/-- A source that has started and not finished has its timer running. -/
def Running (s : Flow (TcpSrc D) TcpSink) : Prop :=
  s.src.state ≠ .idle → s.src.state ≠ .finish → s.src.rtoTimeout ≠ 0

instance (s : Flow (TcpSrc D) TcpSink) : Decidable s.Running :=
  inferInstanceAs (Decidable (_ → _))

variable (cfg) in
/-- An ack that the source takes, and that is not from the past, does not wrap the window
    that its estimates have left. -/
def AckGrows (s : Flow (TcpSrc D) TcpSink) : Act → Prop
  | .deliverAck i =>
      ∀ p ∈ s.acks[i]?, s.Takes (tcpEndhost cfg) p → s.src.lastAcked ≤ p.ackno →
        (TcpSrc.updateDctcp cfg p.ecnRev (TcpSrc.updateRtt s.now p.ts s.src)).Grows p.ackno
  | _ => True

instance (s : Flow (TcpSrc D) TcpSink) : ∀ a : Act, Decidable (AckGrows cfg s a)
  | .deliverAck i => inferInstanceAs (Decidable (∀ p ∈ s.acks[i]?, _))
  | .event | .advance _ | .deliverData _ | .dataFault _ | .ackFault _ | .markEcn _ =>
      inferInstanceAs (Decidable True)

/-- What the guard keeps. -/
structure TimerInv (cfg : TcpConfig D) (s : Flow (TcpSrc D) TcpSink) : Prop where
  inv : Inv (tcpEndhost cfg) s
  quiet : s.Quiet
  timed : s.src.Timed

theorem timerInv_init (flowsize duration startTime endtime : Nat) :
    TimerInv cfg (init (tcpEndhost cfg) flowsize duration startTime endtime) where
  inv := inv_init flowsize duration startTime endtime
  quiet := quiet_init flowsize duration startTime endtime
  timed := by
    obtain ⟨-, -, hhigh, hlow, -⟩ := DataSource.new_spec flowsize duration startTime endtime
    constructor
    · show 0 < initRto
      decide
    · show 0 < 2 ^ 32
      decide
    · show MSS_BYTES ≤ 2 ^ 32 - 1 ∧ 2 ^ 32 - 1 < 2 ^ 32
      decide
    · exact fun _ => ⟨hhigh, hlow⟩
    · exact nofun
    · exact nofun
    · show (DataSource.new flowsize duration startTime endtime).highestSent <
        (DataSource.new flowsize duration startTime endtime).lastAcked + 2 ^ 32
      omega
    · exact fun hidle => absurd rfl hidle

theorem timed_step (hscale : ∀ cwnd alpha, cfg.float.scale cwnd alpha < 2 ^ 32)
    {s : Flow (TcpSrc D) TcpSink} {a : Act} {src : TcpSrc D} (h : TimerInv cfg s)
    (hgrows : AckGrows cfg s a) (hsrc : SrcStepped cfg s a src) : src.Timed := by
  have ht := h.timed
  have hseg := h.inv.segmented
  -- what is pending has no part in it
  have hpop : ∀ time, (s.popEvent (tcpEndhost cfg) time).src.Timed :=
    fun _ => ⟨ht.rto, ht.cwnd, ht.ssthresh, ht.idle, ht.slow, ht.window, ht.flight, ht.timer⟩
  cases hsrc with
  | event _ hnext => exact hnext.timed (hpop _) ⟨hseg.highestSent, hseg.lastAcked, hseg.sent⟩
  | deleted => exact hpop _
  | @ack i p _ hp hrcvd =>
    refine hrcvd.timed hscale ht (h.quiet.started hp) hseg
      (h.inv.acks p (List.mem_of_getElem? hp)).1 fun hfin hgo hlow => ?_
    exact hgrows p hp ⟨decide_eq_false hfin, hgo⟩ hlow
  | same => exact ht

theorem timerInv_step (hscale : ∀ cwnd alpha, cfg.float.scale cwnd alpha < 2 ^ 32)
    (s : Flow (TcpSrc D) TcpSink) (a : Act) (t : Flow (TcpSrc D) TcpSink) (h : TimerInv cfg s)
    (hgrows : AckGrows cfg s a) (hstep : (system (tcpEndhost cfg)).step s a = some t) :
    TimerInv cfg t where
  inv := inv_step s a t h.inv hstep
  quiet := quiet_step s a t h.quiet hstep
  timed := timed_step hscale h hgrows (srcStepped hstep)

/-- Unless an ack wraps the window, the timer of an unfinished flow runs all along. -/
theorem running_of_ackGrows (cfg : TcpConfig D)
    (hscale : ∀ cwnd alpha, cfg.float.scale cwnd alpha < 2 ^ 32)
    (flowsize duration startTime endtime : Nat) (acts : List Act)
    (hgrows : (system (tcpEndhost cfg)).Along (AckGrows cfg)
      (init (tcpEndhost cfg) flowsize duration startTime endtime) acts) :
    (system (tcpEndhost cfg)).Always Running
      (init (tcpEndhost cfg) flowsize duration startTime endtime) acts :=
  Lts.always_of_along (timerInv_step hscale) (fun _ h => h.timed.timer)
    (timerInv_init flowsize duration startTime endtime) hgrows

/-- DCTCP in exact arithmetic, with its window as a `uint32_t`. -/
def dctcpTcp : TcpConfig Rat where
  enableDctcp := true
  float := { exactDctcp with scale := fun cwnd alpha => u32 (exactDctcp.scale cwnd alpha) }

/-- The first of three segments is marked; two of those sent next are lost, and the source
    times out. -/
def marked : List Act :=
  [.event, .markEcn 0, .deliverData 0, .deliverAck 0, .deliverData 0, .deliverAck 0,
    .deliverData 0, .deliverAck 0, .dataFault (.lose 0), .dataFault (.lose 0)] ++
    List.replicate 13 .event

theorem marked_isSome :
    ((system (tcpEndhost dctcpTcp)).run (init (tcpEndhost dctcpTcp) 0 0 0 0) marked).isSome
      = true := by
  decide +kernel

/-- No ack of that run wraps the window, and the timer runs in all its states. -/
theorem running_of_ackGrows_marked :
    (∃ t, (system (tcpEndhost dctcpTcp)).run (init (tcpEndhost dctcpTcp) 0 0 0 0) marked =
        some t ∧ t.src.state = .slowStart ∧ 0 < t.src.alpha) ∧
      (system (tcpEndhost dctcpTcp)).Always Running
        (init (tcpEndhost dctcpTcp) 0 0 0 0) marked :=
  ⟨⟨_, (Option.some_get marked_isSome).symm, by decide +kernel⟩,
    running_of_ackGrows dctcpTcp (fun _ _ => u32_lt _) 0 0 0 0 marked (by decide +kernel)⟩

/-! ## Slow start without losses -/

/-- Segment number `i` of a flow, sent at time 0. -/
def segment (i : Nat) : DataPacket := DataPacket.newpkt (i * MSS_BYTES + 1) 0

/-- An unlimited flow in slow start, at time 0.  The source has sent `hi` segments and `lo`
    are acked; the sink has `mid`, and the rest is in flight. -/
structure Streaming (lo mid hi cwnd : Nat) (s : Flow (TcpSrc Rat) TcpSink) : Prop where
  now : s.now = 0
  alive : s.alive = true
  state : s.src.state = .slowStart
  ssthresh : s.src.ssthresh = 2 ^ 32 - 1
  cwnd : s.src.cwnd = cwnd
  lastAcked : s.src.lastAcked = lo * MSS_BYTES
  highestSent : s.src.highestSent = hi * MSS_BYTES
  flowsize : s.src.flowsize = 0
  duration : s.src.duration = 0
  data : s.data = (List.range' mid (hi - mid)).map segment
  acks : s.acks = []
  sink : s.sink = { cumulativeAck := mid * MSS_BYTES, received := [] }

/-- What `inflateWindow` adds to a window that is at most the initial threshold. -/
def growth (cwnd newlyAcked : Nat) : Nat :=
  if cwnd < 2 ^ 32 - 1 then min (2 ^ 32 - 1 - cwnd) (min newlyAcked MSS_BYTES)
  else max (min newlyAcked MSS_BYTES * MSS_BYTES / cwnd) 1

theorem growth_eq {s : TcpSrc Rat} {d : Nat} (hthresh : s.ssthresh = 2 ^ 32 - 1)
    (hd : s.lastAcked + s.cwnd = s.highestSent + d) (hsmall : d < 2 ^ 31) :
    TcpSrc.increment s = growth s.cwnd d := by
  have hsub : sub64 (s.lastAcked + s.cwnd) s.highestSent = d := by
    rw [sub64, if_pos (by omega)]
    omega
  have hnew : TcpSrc.newlyAcked s.lastAcked s = d := by
    rw [TcpSrc.newlyAcked, hsub, BitVec.toInt_eq_toNat_of_lt, BitVec.toNat_ofNat,
      Nat.mod_eq_of_lt (by omega)]
    rw [BitVec.toNat_ofNat, Nat.mod_eq_of_lt (by omega)]
    omega
  have hmin : (min (d : Int) MSS_BYTES).toNat = min d MSS_BYTES := by omega
  have hpos : ¬ ((d : Int) < 0) := by omega
  simp only [TcpSrc.increment, growth, hnew, hthresh, hmin]
  rw [if_neg hpos]

/-- A new ack in slow start, taken at the moment its segment was sent. -/
theorem receivePacket_slowStart {s : TcpSrc Rat} {ackno d : Nat} (hstate : s.state = .slowStart)
    (hthresh : s.ssthresh = 2 ^ 32 - 1) (hflow : s.flowsize = 0) (hdur : s.duration = 0)
    (hlt : s.cwnd < 2 ^ 32) (hnew : s.lastAcked < ackno) (hd : ackno + s.cwnd = s.highestSent + d)
    (hsmall : d < 2 ^ 31) :
    TcpSrc.receivePacket plainTcp 0 { seqno := 1, ackno, ts := 0 } s =
      TcpSrc.sendPackets 0
        { TcpSrc.restartTimer 0 ackno s with
          lastAcked := ackno
          dupacks := 0
          cwnd := u32 (s.cwnd + growth s.cwnd d) } := by
  have hgo : ¬ s.Completes 0 ackno := by
    unfold DataSource.Completes
    omega
  have hfin : s.state ≠ .finish := by
    rw [hstate]
    exact nofun
  have hfast : (TcpSrc.restartTimer 0 ackno s).state ≠ .fastRecov := by
    rw [TcpSrc.restartTimer_state, hstate]
    exact nofun
  have hinflate := TcpSrc.inflateWindow_eq
    (s := { TcpSrc.restartTimer 0 ackno s with lastAcked := ackno, dupacks := 0 }) hlt
  have hgrow : TcpSrc.increment
      { TcpSrc.restartTimer 0 ackno s with lastAcked := ackno, dupacks := 0 } =
      growth s.cwnd d := growth_eq hthresh hd hsmall
  -- no time has passed, and there is no DCTCP
  have hsame : TcpSrc.updateDctcp plainTcp false (TcpSrc.updateRtt 0 0 s) = s := rfl
  have hold : ¬ ackno < s.lastAcked := Nat.not_lt.mpr hnew.le
  rw [TcpSrc.receivePacket_eq hfin hgo]
  simp only [hsame]
  rw [if_neg hold, TcpSrc.processAck, if_pos hnew]
  simp only [TcpSrc.newAck]
  rw [if_pos hfast]
  rw [hgrow] at hinflate
  exact congrArg (TcpSrc.sendPackets 0) hinflate

/-- What is next at the sink arrives there, and is acked. -/
theorem streaming_deliverData {lo mid hi cwnd : Nat} {s : Flow (TcpSrc Rat) TcpSink}
    (h : Streaming lo mid hi cwnd s) (hmid : mid < hi) :
    (system (tcpEndhost plainTcp)).step s (.deliverData 0) =
      some
        { s with
          data := (List.range' (mid + 1) (hi - (mid + 1))).map segment
          sink := { cumulativeAck := (mid + 1) * MSS_BYTES, received := [] }
          acks := [{ seqno := 1, ackno := (mid + 1) * MSS_BYTES, ts := 0 }]
          rcvd := s.rcvd ++ [segment mid] } := by
  have hdata : s.data =
      segment mid :: (List.range' (mid + 1) (hi - (mid + 1))).map segment := by
    rw [h.data, show hi - mid = (hi - (mid + 1)) + 1 by omega, List.range'_succ, List.map_cons]
  -- the segment is the next one, so the sink acks it at once and buffers nothing
  have hproc : s.sink.processDataPacket (segment mid) =
      { cumulativeAck := (mid + 1) * MSS_BYTES, received := [] } := by
    have hnext : (segment mid).seqno = mid * MSS_BYTES + 1 := rfl
    have hend : (segment mid).seqno + (segment mid).size - 1 = (mid + 1) * MSS_BYTES := by
      show mid * MSS_BYTES + 1 + MSS_BYTES - 1 = (mid + 1) * MSS_BYTES
      rw [Nat.succ_mul]
      omega
    rw [h.sink, DataSink.processDataPacket, if_pos hnext, hend]
    rfl
  have hrecv : (tcpEndhost plainTcp).sinkReceive s.now (segment mid) s.sink =
      ({ cumulativeAck := (mid + 1) * MSS_BYTES, received := [] },
        { seqno := 1, ackno := (mid + 1) * MSS_BYTES, ts := 0 }) := by
    show (s.sink.processDataPacket (segment mid), _) = _
    rw [hproc]
    rfl
  show (if s.alive = true then s.act (tcpEndhost plainTcp) (.deliverData 0) else none) = _
  rw [if_pos h.alive]
  simp only [act, deliver, hdata, h.acks, List.getElem?_cons_zero, List.eraseIdx_cons_zero,
    Option.map_some, List.nil_append, hrecv]

/-- An ack of it lets the window grow, and the source sends what fits. -/
theorem streaming_ack {lo mid hi cwnd d : Nat} {s : Flow (TcpSrc Rat) TcpSink}
    (h : Streaming lo mid hi cwnd s) (hlo : lo ≤ mid) (hmid : mid < hi) (hlt : cwnd < 2 ^ 32)
    (hd : (mid + 1) * MSS_BYTES + cwnd = hi * MSS_BYTES + d) (hsmall : d < 2 ^ 31) {m : Nat}
    (hm : ((mid + 1) * MSS_BYTES + u32 (cwnd + growth cwnd d) - hi * MSS_BYTES) / MSS_BYTES = m) :
    ∃ t, (system (tcpEndhost plainTcp)).run s [.deliverData 0, .deliverAck 0] = some t ∧
      Streaming (mid + 1) (mid + 1) (hi + m) (u32 (cwnd + growth cwnd d)) t ∧
      (mid + 1 = hi → m = 0 → t.src.rtoTimeout = 0) := by
  have hnew : s.src.lastAcked < (mid + 1) * MSS_BYTES := by
    rw [h.lastAcked]
    exact Nat.mul_lt_mul_of_pos_right (by omega) (by decide)
  have hsrc := receivePacket_slowStart (d := d) h.state h.ssthresh h.flowsize h.duration
    (by rw [h.cwnd]; exact hlt) hnew (by rw [h.cwnd, h.highestSent]; exact hd) hsmall
  rw [h.cwnd] at hsrc
  -- the source with the ack taken, before it sends
  obtain ⟨u, hu⟩ : ∃ u, u =
      { TcpSrc.restartTimer 0 ((mid + 1) * MSS_BYTES) s.src with
        lastAcked := (mid + 1) * MSS_BYTES
        dupacks := 0
        cwnd := u32 (cwnd + growth cwnd d) } := ⟨_, rfl⟩
  rw [← hu] at hsrc
  have hhigh : u.highestSent = hi * MSS_BYTES := by
    rw [hu]
    exact h.highestSent
  have hflow : u.flowsize = 0 := by
    rw [hu]
    exact h.flowsize
  have hcwnd : u.cwnd = u32 (cwnd + growth cwnd d) := by rw [hu]
  have hlast : u.lastAcked = (mid + 1) * MSS_BYTES := by rw [hu]
  have hloop : TcpSrc.sendPackets 0 u = TcpSrc.sendLoop 0 m u := by
    have hall : ¬ u.AllSent := by
      rw [DataSource.AllSent, hflow]
      omega
    rw [TcpSrc.sendPackets, if_neg hall, hlast, hcwnd, hhigh, hm]
  have hsends := @TcpSrc.sends_sendPackets _ 0 u
  have hfuel : m * MSS_BYTES ≤ u.lastAcked + u.cwnd - u.highestSent := by
    rw [hlast, hcwnd, hhigh, ← hm]
    exact Nat.div_mul_le_self _ _
  obtain ⟨hsentHigh, hsent⟩ := @TcpSrc.sendLoop_sent _ 0 _ _ hflow hfuel
  rw [← hloop] at hsentHigh hsent
  have hfix : u.sent = s.src.sent ∧ u.state = s.src.state ∧ u.ssthresh = s.src.ssthresh := by
    rw [hu]
    exact ⟨rfl, rfl, rfl⟩
  have hdur : (TcpSrc.sendPackets 0 u).duration = 0 := by
    have hmoves : DataSource.Moves none u.toDataSource (TcpSrc.sendPackets 0 u).toDataSource :=
      TcpSrc.sendPackets_moves (DataSource.Moves.refl _)
    rw [hmoves.grown.duration, hu]
    exact h.duration
  -- the segments it sends follow those in flight
  have hnext : ((TcpSrc.sendPackets 0 u).sent.drop s.src.sent.length).map Sent.pkt =
      (List.range' hi m).map segment := by
    have hseg : (fun i => DataPacket.newpkt (hi * MSS_BYTES + i * MSS_BYTES + 1) 0) =
        segment ∘ (hi + ·) := by
      funext i
      show _ = segment (hi + i)
      rw [segment, Nat.add_mul]
    have hlen : s.src.sent.length = (s.src.sent.map Sent.pkt).length :=
      (List.length_map Sent.pkt).symm
    rw [List.map_drop, hsent, hfix.1, hlen, List.drop_left, List.range'_eq_map_range,
      List.map_map, hhigh, hseg]
  have hstate := (hsends.state.trans hfix.2.1).trans h.state
  have hthresh := (hsends.ssthresh.trans hfix.2.2).trans h.ssthresh
  have hwindow := hsends.cwnd.trans hcwnd
  have hacked := hsends.lastAcked.trans hlast
  have hsize := hsends.flowsize.trans hflow
  have htop : (TcpSrc.sendPackets 0 u).highestSent = (hi + m) * MSS_BYTES := by
    rw [hsentHigh, hhigh, Nat.add_mul]
  have htimer : mid + 1 = hi → m = 0 → (TcpSrc.sendPackets 0 u).rtoTimeout = 0 := by
    intro hall hnone
    have hstop : u.rtoTimeout = 0 := by
      rw [hu]
      show (if (mid + 1) * MSS_BYTES = s.src.highestSent then 0 else _) = 0
      rw [h.highestSent, hall, if_pos rfl]
    rw [hloop, hnone]
    exact hstop
  generalize TcpSrc.sendPackets 0 u = src at *
  refine ⟨{ s with
      data := (List.range' (mid + 1) (hi + m - (mid + 1))).map segment
      src := src
      sink := { cumulativeAck := (mid + 1) * MSS_BYTES, received := [] }
      acks := []
      rcvd := s.rcvd ++ [segment mid] }, ?_, ?_, htimer⟩
  · rw [Lts.run_cons, streaming_deliverData h hmid, Option.bind_some, Lts.run_cons]
    have hjoin : (List.range' (mid + 1) (hi - (mid + 1))).map segment ++
        (List.range' hi m).map segment =
        (List.range' (mid + 1) (hi + m - (mid + 1))).map segment := by
      have hend : hi = mid + 1 + (hi - (mid + 1)) := by omega
      have hlen : hi + m - (mid + 1) = (hi - (mid + 1)) + m := by omega
      rw [← List.map_append, hlen]
      nth_rewrite 2 [hend]
      rw [List.range'_append_1]
    -- the ack is the only one in flight
    have hack : TcpSrc.receivePacket plainTcp s.now
        { seqno := 1, ackno := (mid + 1) * MSS_BYTES, ts := 0 } s.src = src := by
      rw [h.now]
      exact hsrc
    have hhandOn : ∀ f : Flow (TcpSrc Rat) TcpSink, f.src = s.src →
        f.handOn (tcpEndhost plainTcp) src =
          { f with src := src, data := f.data ++ (List.range' hi m).map segment } := by
      intro f hf
      rw [handOn, hf]
      show { f with
        src := src
        data := f.data ++ (src.sent.drop s.src.sent.length).map Sent.pkt } = _
      rw [hnext]
    show (if s.alive = true then
        some (handOn (tcpEndhost plainTcp)
          { s with
            data := (List.range' (mid + 1) (hi - (mid + 1))).map segment
            sink := { cumulativeAck := (mid + 1) * MSS_BYTES, received := [] }
            acks := []
            rcvd := s.rcvd ++ [segment mid] }
          (TcpSrc.receivePacket plainTcp s.now
            { seqno := 1, ackno := (mid + 1) * MSS_BYTES, ts := 0 } s.src))
      else none).bind _ = _
    rw [if_pos h.alive, hack, hhandOn]
    · show some _ = _
      rw [hjoin]
    · rfl
  · exact
      { now := h.now
        alive := h.alive
        state := hstate
        ssthresh := hthresh
        cwnd := hwindow
        lastAcked := hacked
        highestSent := htop
        flowsize := hsize
        duration := hdur
        data := rfl
        acks := rfl
        sink := rfl }

/-- A segment arrives, and its ack is lost. -/
theorem streaming_lose {lo mid hi cwnd : Nat} {s : Flow (TcpSrc Rat) TcpSink}
    (h : Streaming lo mid hi cwnd s) (hmid : mid < hi) :
    ∃ t, (system (tcpEndhost plainTcp)).run s [.deliverData 0, .ackFault (.lose 0)] = some t ∧
      Streaming lo (mid + 1) hi cwnd t := by
  -- the state after: one segment less on the way, and no ack
  refine ⟨{ s with
      data := (List.range' (mid + 1) (hi - (mid + 1))).map segment
      sink := { cumulativeAck := (mid + 1) * MSS_BYTES, received := [] }
      acks := []
      rcvd := s.rcvd ++ [segment mid] }, ?_, ?_⟩
  · rw [Lts.run_cons, streaming_deliverData h hmid, Option.bind_some]
    show (if s.alive = true then _ else none).bind _ = _
    rw [if_pos h.alive]
    rfl
  · exact
      { now := h.now
        alive := h.alive
        state := h.state
        ssthresh := h.ssthresh
        cwnd := h.cwnd
        lastAcked := h.lastAcked
        highestSent := h.highestSent
        flowsize := h.flowsize
        duration := h.duration
        data := rfl
        acks := rfl
        sink := rfl }

/-! ## A run in which the timer stops -/

/-- A segment and its ack arrive. -/
def acked : List Act := [.deliverData 0, .deliverAck 0]

/-- A segment arrives, and its ack is lost. -/
def unacked : List Act := [.deliverData 0, .ackFault (.lose 0)]

/-- `n` times the same. -/
def rounds (n : Nat) (round : List Act) : List Act := (List.replicate n round).flatten

theorem rounds_succ (n : Nat) (round : List Act) :
    rounds (n + 1) round = rounds n round ++ round := by
  rw [rounds, List.replicate_succ', List.flatten_append, List.flatten_singleton]
  rfl

theorem event_isSome :
    ((system (tcpEndhost plainTcp)).step (init (tcpEndhost plainTcp) 0 0 0 0) .event).isSome
      = true := by
  decide +kernel

theorem streaming_event :
    ∃ s, (system (tcpEndhost plainTcp)).step (init (tcpEndhost plainTcp) 0 0 0 0) .event = some s ∧
      Streaming 0 0 2 (2 * MSS_BYTES) s := by
  refine ⟨_, (Option.some_get event_isSome).symm, ?_⟩
  constructor
  all_goals decide +kernel

theorem growth_of_room {cwnd d : Nat} (hroom : cwnd + MSS_BYTES < 2 ^ 32) (hd : MSS_BYTES ≤ d) :
    growth cwnd d = MSS_BYTES := by
  have hmss : MSS_BYTES = 1500 := rfl
  have hslow : cwnd < 2 ^ 32 - 1 := by omega
  rw [growth, if_pos hslow]
  omega

/-- Slow start adds a segment to the window in each round. -/
theorem streaming_acked {n : Nat} (hn : n ≤ 2863309) :
    ∃ s, (system (tcpEndhost plainTcp)).run (init (tcpEndhost plainTcp) 0 0 0 0)
        (.event :: rounds n acked) = some s ∧
      Streaming n n (2 * n + 2) (n * 1500 + 3000) s := by
  have hmss : MSS_BYTES = 1500 := rfl
  induction n with
  | zero =>
    obtain ⟨s, hs, hstream⟩ := streaming_event
    refine ⟨s, ?_, hstream⟩
    rw [Lts.run_cons, hs]
    rfl
  | succ n ih =>
    obtain ⟨s, hs, hstream⟩ := ih (by omega)
    -- the ack finds one segment newly acked, and two fit into the window after it
    have hgrow : growth (n * 1500 + 3000) 1500 = 1500 :=
      growth_of_room (by rw [hmss]; omega) (by rw [hmss])
    have hcwnd : u32 (n * 1500 + 3000 + growth (n * 1500 + 3000) 1500) =
        (n + 1) * 1500 + 3000 := by
      rw [hgrow, u32, Nat.mod_eq_of_lt (by omega)]
      omega
    have hm : ((n + 1) * MSS_BYTES + u32 (n * 1500 + 3000 + growth (n * 1500 + 3000) 1500) -
        (2 * n + 2) * MSS_BYTES) / MSS_BYTES = 2 := by
      rw [hcwnd, hmss]
      omega
    obtain ⟨t, ht, hstream', -⟩ := streaming_ack hstream le_rfl (by omega) (by omega)
      (by rw [hmss]; omega) (by decide) hm
    rw [hcwnd] at hstream'
    refine ⟨t, ?_, hstream'⟩
    rw [rounds_succ, ← List.cons_append, Lts.run_append, hs, Option.bind_some]
    exact ht

theorem streaming_unacked {lo mid hi cwnd n : Nat} {s : Flow (TcpSrc Rat) TcpSink}
    (h : Streaming lo mid hi cwnd s) (hn : mid + n ≤ hi) :
    ∃ t, (system (tcpEndhost plainTcp)).run s (rounds n unacked) = some t ∧
      Streaming lo (mid + n) hi cwnd t := by
  induction n with
  | zero => exact ⟨s, rfl, h⟩
  | succ n ih =>
    obtain ⟨t, ht, hstream⟩ := ih (by omega)
    obtain ⟨t', ht', hstream'⟩ := streaming_lose hstream (by omega)
    refine ⟨t', ?_, hstream'⟩
    rw [rounds_succ, Lts.run_append, ht, Option.bind_some]
    exact ht'

/-- Slow start up to a window that wraps; then everything in flight arrives, and of the acks
    only the last one. -/
def stalling (n : Nat) : List Act :=
  .event :: rounds n acked ++ acked ++ acked ++ rounds n unacked ++ acked

/-- The window is `2 ^ 32 - 1` after one more round, and wraps in the next.  Nothing is sent
    any more, and the ack of everything stops the timer. -/
theorem stalling_stops {n : Nat} (hn : n = 2863309) :
    ∃ t, (system (tcpEndhost plainTcp)).run (init (tcpEndhost plainTcp) 0 0 0 0) (stalling n) =
        some t ∧
      t.src.state = .slowStart ∧ t.src.rtoTimeout = 0 := by
  have hmss : MSS_BYTES = 1500 := rfl
  obtain ⟨s, hs, hstream⟩ := streaming_acked (n := n) (by omega)
  -- up to the threshold
  have hgrow₁ : growth (n * 1500 + 3000) 1500 = 795 := by
    rw [growth, if_pos (by omega), hmss]
    omega
  have hcwnd₁ : u32 (n * 1500 + 3000 + growth (n * 1500 + 3000) 1500) = 2 ^ 32 - 1 := by
    rw [hgrow₁, u32]
    omega
  have hm₁ : ((n + 1) * MSS_BYTES + u32 (n * 1500 + 3000 + growth (n * 1500 + 3000) 1500) -
      (2 * n + 2) * MSS_BYTES) / MSS_BYTES = 1 := by
    rw [hcwnd₁, hmss]
    omega
  obtain ⟨s₁, hs₁, hstream₁, -⟩ := streaming_ack hstream le_rfl (by omega) (by omega)
    (by rw [hmss]; omega) (by decide) hm₁
  rw [hcwnd₁] at hstream₁
  -- over it
  have hgrow₂ : growth (2 ^ 32 - 1) 2295 = 1 := by decide
  have hcwnd₂ : u32 (2 ^ 32 - 1 + growth (2 ^ 32 - 1) 2295) = 0 := by
    rw [hgrow₂]
    rfl
  have hm₂ : ((n + 1 + 1) * MSS_BYTES + u32 (2 ^ 32 - 1 + growth (2 ^ 32 - 1) 2295) -
      (2 * n + 2 + 1) * MSS_BYTES) / MSS_BYTES = 0 := by
    rw [hcwnd₂, hmss]
    omega
  obtain ⟨s₂, hs₂, hstream₂, -⟩ := streaming_ack hstream₁ le_rfl (by omega) (by decide)
    (by rw [hmss]; omega) (by decide) hm₂
  rw [hcwnd₂] at hstream₂
  -- the rest of what is in flight
  obtain ⟨s₃, hs₃, hstream₃⟩ := streaming_unacked (n := n) hstream₂ (by omega)
  have hcwnd₃ : u32 (0 + growth 0 0) = 0 := by decide
  have hm₃ : ((n + 1 + 1 + n + 1) * MSS_BYTES + u32 (0 + growth 0 0) -
      (2 * n + 2 + 1 + 0) * MSS_BYTES) / MSS_BYTES = 0 := by
    rw [hcwnd₃, hmss]
    omega
  obtain ⟨t, ht, hstream', htimer⟩ := streaming_ack hstream₃ (by omega) (by omega) (by decide)
    (by rw [hmss]; omega) (by decide) hm₃
  refine ⟨t, ?_, hstream'.state, htimer (by omega) rfl⟩
  rw [stalling, Lts.run_append, Lts.run_append, Lts.run_append, Lts.run_append, hs,
    Option.bind_some, acked, hs₁, Option.bind_some, hs₂, Option.bind_some, hs₃, Option.bind_some]
  exact ht

/-- After 2863309 rounds without a loss an unfinished flow has no timer left. -/
theorem stalling_breaks :
    ∃ t, (system (tcpEndhost plainTcp)).run (init (tcpEndhost plainTcp) 0 0 0 0)
        (stalling 2863309) = some t ∧
      t.src.state = .slowStart ∧ t.src.rtoTimeout = 0 ∧ ¬ t.Running := by
  obtain ⟨t, ht, hstate, htimer⟩ := stalling_stops (n := 2863309) rfl
  refine ⟨t, ht, hstate, htimer, fun hrun => hrun ?_ ?_ htimer⟩
  · rw [hstate]
    exact nofun
  · rw [hstate]
    exact nofun

end Flow
end Htsim
end DatacenterNetworking
