/-
  DatacenterNetworking.Htsim.TcpWindow

  The window of a `TcpSrc` without DCTCP: when is it at least a segment, and are the
  32-bit differences exact that it is taken from where fast recovery ends and at a
  timeout?

  `Room` says what an ack must find for that, in terms of the source before it:

    * the sums assigned to `_cwnd` stay below `2 ^ 32`;
    * an ack that ends fast recovery is not beyond `_highest_sent`.

  `window_iff_findsRoom`: a run keeps the property exactly when all its acks find room.
-/

import DatacenterNetworking.Htsim.TcpStep

namespace DatacenterNetworking
namespace Htsim
namespace TcpSrc

variable {D : Type} {cfg : TcpConfig D} {now : Nat}

/-! ## Room for an ack -/

/-- What an ack must find. -/
def Room (ackno : Nat) (s : TcpSrc D) : Prop :=
  if s.lastAcked < ackno then
    if s.state ≠ .fastRecov then s.cwnd + 1 < 2 ^ 32 ∨ newlyAcked ackno s < 0
    else if s.recoverSeq ≤ ackno then ackno ≤ s.highestSent
    else s.cwnd - u32 (ackno - s.lastAcked) + MSS_BYTES < 2 ^ 32
  else s.state = .fastRecov → s.cwnd + MSS_BYTES < 2 ^ 32

instance (ackno : Nat) (s : TcpSrc D) : Decidable (Room ackno s) := by
  unfold Room
  infer_instance

/-- What holds of the window in a run whose acks find room. -/
structure Windowed (s : TcpSrc D) : Prop where
  idle : s.state = .idle → s.highestSent = 0 ∧ s.lastAcked = 0
  segment : s.state ≠ .idle → MSS_BYTES ≤ s.cwnd
  cwnd : s.cwnd < 2 ^ 32
  ssthresh : 2 * MSS_BYTES ≤ s.ssthresh ∧ s.ssthresh < 2 ^ 32
  /-- Something is in flight. -/
  ahead : s.state ≠ .idle → s.state ≠ .finish → s.lastAcked < s.highestSent
  flight : s.highestSent < s.lastAcked + 2 ^ 32

/-- Without that room it wraps to zero. -/
theorem inflateWindow_of_full {s : TcpSrc D} (hlt : s.cwnd < 2 ^ 32)
    (hthresh : s.ssthresh < 2 ^ 32)
    (hfull : ¬ (s.cwnd + 1 < 2 ^ 32 ∨ newlyAcked s.lastAcked s < 0)) :
    (inflateWindow s).cwnd = 0 := by
  obtain ⟨hmax, hpos⟩ := not_or.mp hfull
  have hsquare : MSS_BYTES * MSS_BYTES = 2250000 := rfl
  have hone : increment s = 1 := increment_eq_one (by omega) (by omega) hpos
  have hsum : s.cwnd + increment s = 2 ^ 32 := by omega
  rw [inflateWindow_eq hlt, hsum]
  rfl

/-! ## Acks that find room -/

/-- After `sendPackets` something is in flight. -/
theorem windowed_sendPackets {s : TcpSrc D} (hidle : s.state ≠ .idle)
    (hseg : MSS_BYTES ≤ s.cwnd) (hlt : s.cwnd < 2 ^ 32)
    (hthresh : 2 * MSS_BYTES ≤ s.ssthresh ∧ s.ssthresh < 2 ^ 32)
    (hflight : s.highestSent < s.lastAcked + 2 ^ 32)
    (hroom : 0 < s.flowsize → s.lastAcked < s.flowsize) : Windowed (sendPackets now s) := by
  have hsends : Sends s (sendPackets now s) := sends_sendPackets s
  have hahead := @lastAcked_lt_sendPackets _ now s hseg hroom
  have hstate := hsends.state
  have hcwnd := hsends.cwnd
  have hthresh' := hsends.ssthresh
  have hlast := hsends.lastAcked
  exact
    { idle := fun h => absurd (hstate.symm.trans h) hidle
      segment := fun _ => by rw [hcwnd]; exact hseg
      cwnd := by rw [hcwnd]; exact hlt
      ssthresh := by rw [hthresh']; exact hthresh
      ahead := fun _ _ => by rw [hlast]; exact hahead
      flight := by
        -- what is sent fits into the window
        rw [hlast]
        rcases hsends.within with heq | hwithin
        · omega
        · omega }

theorem windowed_inflateWindow {s : TcpSrc D} (hidle : s.state ≠ .idle)
    (hseg : MSS_BYTES ≤ s.cwnd) (hlt : s.cwnd < 2 ^ 32)
    (hthresh : 2 * MSS_BYTES ≤ s.ssthresh ∧ s.ssthresh < 2 ^ 32)
    (hflight : s.highestSent < s.lastAcked + 2 ^ 32)
    (hflow : 0 < s.flowsize → s.lastAcked < s.flowsize)
    (hroom : s.cwnd + 1 < 2 ^ 32 ∨ newlyAcked s.lastAcked s < 0) :
    Windowed (sendPackets now (inflateWindow s)) := by
  have hsum := add_increment_lt hseg hlt hthresh.2 hroom
  rw [inflateWindow_eq hlt, u32, Nat.mod_eq_of_lt hsum]
  exact windowed_sendPackets hidle (hseg.trans (Nat.le_add_right _ _)) hsum hthresh hflight hflow

theorem windowed_retransmitPacket {s : TcpSrc D} (h : Windowed s) :
    Windowed (retransmitPacket now s) := by
  obtain ⟨timer, heq, -⟩ := retransmitPacket_eq now s
  rw [heq]
  exact ⟨h.idle, h.segment, h.cwnd, h.ssthresh, h.ahead, h.flight⟩

theorem windowed_resend {s : TcpSrc D} (hidle : s.state ≠ .idle)
    (hseg : MSS_BYTES ≤ s.cwnd) (hlt : s.cwnd < 2 ^ 32)
    (hthresh : 2 * MSS_BYTES ≤ s.ssthresh ∧ s.ssthresh < 2 ^ 32)
    (hflight : s.highestSent < s.lastAcked + 2 ^ 32)
    (hflow : 0 < s.flowsize → s.lastAcked < s.flowsize) :
    Windowed (sendPackets now (retransmitPacket now s)) := by
  obtain ⟨timer, heq, -⟩ := retransmitPacket_eq now s
  rw [heq]
  exact windowed_sendPackets hidle hseg hlt hthresh hflight hflow

theorem Processed.windowed {a : DataAck} {s t : TcpSrc D} (h : Processed now a s t)
    (hw : Windowed s) (hidle : s.state ≠ .idle) (hfin : s.state ≠ .finish)
    (hflow : 0 < s.flowsize → a.ackno < s.flowsize) (hlow : s.lastAcked ≤ a.ackno)
    (hgap : s.lastAcked < a.ackno → s.lastAcked + MSS_BYTES ≤ a.ackno)
    (hroom : Room a.ackno s) : Windowed t := by
  have hmss : MSS_BYTES = 1500 := rfl
  have hseg := hw.segment hidle
  have hlt := hw.cwnd
  have hthresh := hw.ssthresh
  have hflight := hw.flight
  have hflight' : s.highestSent < a.ackno + 2 ^ 32 := by omega
  have hflow' : 0 < s.flowsize → s.lastAcked < s.flowsize := fun hpos => hlow.trans_lt (hflow hpos)
  unfold Room at hroom
  cases h with
  | expected hnew hstate =>
    rw [if_pos hnew, if_pos hstate] at hroom
    exact windowed_inflateWindow hidle hseg hlt hthresh hflight' hflow hroom
  | recovered hnew hstate hfull =>
    rw [if_pos hnew, if_neg (not_not.mpr hstate), if_pos hfull] at hroom
    -- the ack is a segment on, so that the flight size leaves room for one
    have hless := hgap hnew
    have hsum : s.highestSent - a.ackno + MSS_BYTES < 2 ^ 32 := by omega
    have hexact := flightsize_add hroom hsum
    refine windowed_sendPackets (fun hout => by cases hout) ?_ ?_ hthresh hflight' hflow
    · show MSS_BYTES ≤ min s.ssthresh (u32 (u32 (sub64 s.highestSent a.ackno) + MSS_BYTES))
      rw [hexact]
      omega
    · show min s.ssthresh (u32 (u32 (sub64 s.highestSent a.ackno) + MSS_BYTES)) < 2 ^ 32
      rw [hexact]
      omega
  | partly hnew hstate hpart =>
    rw [if_pos hnew, if_neg (not_not.mpr hstate), if_neg (Nat.not_le.mpr hpart)] at hroom
    have hcut := deflateWindow_eq (s := restartTimer now a.ackno s) hlow
    rw [hcut]
    refine windowed_resend hidle ?_ (u32_lt _) hthresh hflight' hflow
    show MSS_BYTES ≤ u32 (s.cwnd - u32 (a.ackno - s.lastAcked) + MSS_BYTES)
    rw [u32, Nat.mod_eq_of_lt hroom]
    exact Nat.le_add_left _ _
  | inflate hdup hstate =>
    rw [if_neg hdup] at hroom
    have hsum : u32 (s.cwnd + MSS_BYTES) = s.cwnd + MSS_BYTES := Nat.mod_eq_of_lt (hroom hstate)
    refine windowed_sendPackets hidle ?_ ?_ hthresh hflight hflow'
    · rw [hsum]
      exact Nat.le_add_left _ _
    · rw [hsum]
      exact hroom hstate
  | duplicate => exact windowed_sendPackets hidle hseg hlt hthresh hflight hflow'
  | unrecovered => exact ⟨hw.idle, hw.segment, hlt, hthresh, hw.ahead, hflight⟩
  | enter hdup hstate hcount hfull =>
    -- half a window and three segments
    have hsum : max (s.cwnd / 2) (MSS_BYTES * 2) + 3 * MSS_BYTES < 2 ^ 32 := by omega
    apply windowed_retransmitPacket
    constructor
    · intro hout
      cases hout
    · intro _
      show MSS_BYTES ≤ u32 (max (s.cwnd / 2) (MSS_BYTES * 2) + 3 * MSS_BYTES)
      rw [u32, Nat.mod_eq_of_lt hsum]
      omega
    · exact u32_lt _
    · show 2 * MSS_BYTES ≤ max (s.cwnd / 2) (MSS_BYTES * 2) ∧
        max (s.cwnd / 2) (MSS_BYTES * 2) < 2 ^ 32
      omega
    · exact fun _ _ => hw.ahead hidle hfin
    · exact hflight

/-! ## Events -/

theorem windowed_scheduleCheck {s : TcpSrc D} (h : Windowed s) :
    Windowed (scheduleCheck now s) := by
  obtain ⟨times, heq⟩ := scheduleCheck_eq now s
  rw [heq]
  exact ⟨h.idle, h.segment, h.cwnd, h.ssthresh, h.ahead, h.flight⟩

theorem windowed_timeout {s : TcpSrc D} (h : Windowed s) : Windowed (timeout now s) := by
  have hmss : MSS_BYTES = 1500 := rfl
  have hlt := h.cwnd
  have hthresh := h.ssthresh.2
  apply windowed_retransmitPacket
  constructor
  · exact nofun
  · exact fun _ => le_rfl
  · show MSS_BYTES < 2 ^ 32
    omega
  · -- half of what the window was
    show 2 * MSS_BYTES ≤ max (_ / 2) (MSS_BYTES * 2) ∧ max (_ / 2) (MSS_BYTES * 2) < 2 ^ 32
    split_ifs
    · omega
    · omega
  · intro _ _
    show s.lastAcked < s.lastAcked + MSS_BYTES
    omega
  · show s.lastAcked + MSS_BYTES < s.lastAcked + 2 ^ 32
    omega

theorem NextEvent.windowed {s t : TcpSrc D} (h : NextEvent now s t) (hw : Windowed s) :
    Windowed t := by
  have hmss : MSS_BYTES = 1500 := rfl
  cases h with
  | start hstate =>
    obtain ⟨hhigh, hlow⟩ := hw.idle hstate
    apply windowed_scheduleCheck
    refine windowed_sendPackets nofun ?_ ?_ hw.ssthresh hw.flight ?_
    · show MSS_BYTES ≤ 2 * MSS_BYTES
      omega
    · show 2 * MSS_BYTES < 2 ^ 32
      omega
    · show 0 < s.flowsize → s.lastAcked < s.flowsize
      omega
  | expire =>
    apply windowed_scheduleCheck
    exact windowed_timeout hw
  | check => exact windowed_scheduleCheck hw

/-! ## Acks that do not -/

/-- An ack without room leaves a window smaller than a segment, unless it ends fast recovery
    from beyond `_highest_sent`. -/
theorem Processed.room {a : DataAck} {s t : TcpSrc D} (h : Processed now a s t)
    (hw : Windowed s) (hlow : s.lastAcked ≤ a.ackno) (hseg : MSS_BYTES ≤ t.cwnd)
    (hends : s.state = .fastRecov → s.lastAcked < a.ackno → s.recoverSeq ≤ a.ackno →
      a.ackno ≤ s.highestSent) : Room a.ackno s := by
  have hmss : MSS_BYTES = 1500 := rfl
  have hlt := hw.cwnd
  have hcwnd : ∀ u : TcpSrc D, (sendPackets now u).cwnd = u.cwnd :=
    fun u => (sends_sendPackets u).cwnd
  unfold Room
  -- the branches of the ack handler; each grows the window in its own way or not at all
  cases h with
  | expected hnew hstate =>
    rw [if_pos hnew, if_pos hstate]
    by_contra hfull
    have hzero := hseg.trans_eq
      ((hcwnd _).trans (inflateWindow_of_full hlt hw.ssthresh.2 hfull))
    omega
  | recovered hnew hstate hfull =>
    rw [if_pos hnew, if_neg (not_not.mpr hstate), if_pos hfull]
    exact hends hstate hnew hfull
  | partly hnew hstate hpart =>
    rw [if_pos hnew, if_neg (not_not.mpr hstate), if_neg (Nat.not_le.mpr hpart)]
    have hresend : ∀ u : TcpSrc D, (retransmitPacket now u).cwnd = u.cwnd :=
      fun u => (armRto_spec _).2.2.1
    have hdeflate : (deflateWindow a.ackno (restartTimer now a.ackno s)).cwnd =
        u32 (s.cwnd - u32 (a.ackno - s.lastAcked) + MSS_BYTES) := by
      rw [deflateWindow_eq (s := restartTimer now a.ackno s) hlow]
      rfl
    have hwrap := hseg.trans_eq ((hcwnd _).trans ((hresend _).trans hdeflate))
    generalize u32 (a.ackno - s.lastAcked) = newData at hwrap ⊢
    unfold u32 at hwrap
    omega
  | inflate hdup hstate =>
    rw [if_neg hdup]
    intro _
    rw [hcwnd] at hseg
    have hwrap : MSS_BYTES ≤ u32 (s.cwnd + MSS_BYTES) := hseg
    unfold u32 at hwrap
    omega
  | duplicate hdup hstate =>
    rw [if_neg hdup]
    exact fun hfast => absurd hfast hstate
  | unrecovered hdup hstate =>
    rw [if_neg hdup]
    exact fun hfast => absurd hfast hstate
  | enter hdup hstate =>
    rw [if_neg hdup]
    exact fun hfast => absurd hfast hstate

/-- Without DCTCP an ack finds the source as it was, but for the RTT estimate. -/
theorem updateDctcp_plain (hplain : cfg.enableDctcp = false) (ecnRev : Bool) (s : TcpSrc D) :
    updateDctcp cfg ecnRev s = s := by
  rw [updateDctcp, hplain]
  rfl

/-- An exact difference. -/
theorem u32_sub64_eq {m n : Nat} (hle : n ≤ m) (hlt : m < n + 2 ^ 32) :
    (u32 (sub64 m n) : Int) = m - n := by
  have hsub : sub64 m n = m - n := if_pos hle
  have hsmall : m - n < 2 ^ 32 := by omega
  rw [hsub, u32, Nat.mod_eq_of_lt hsmall]
  omega

end TcpSrc

namespace Flow

variable {D : Type} {cfg : TcpConfig D}

/-! ## The window along a run -/

/-- Once the source has started, its window is at least a segment. -/
def WindowOk (s : Flow (TcpSrc D) TcpSink) : Prop :=
  s.src.state ≠ .idle → MSS_BYTES ≤ s.src.cwnd

instance (s : Flow (TcpSrc D) TcpSink) : Decidable s.WindowOk :=
  inferInstanceAs (Decidable (_ → _))

variable (cfg) in
/-- The flight size is exact when an ack ends fast recovery, and at a timeout in it. -/
def FlightExact (s : Flow (TcpSrc D) TcpSink) : Act → Prop
  | .deliverAck i =>
      ∀ p ∈ s.acks[i]?, s.Takes (tcpEndhost cfg) p → s.src.state = .fastRecov →
        s.src.lastAcked < p.ackno → s.src.recoverSeq ≤ p.ackno →
        (u32 (sub64 s.src.highestSent p.ackno) : Int) = s.src.highestSent - p.ackno
  | .event =>
      s.TimesOut .event → s.src.state = .fastRecov →
        (u32 (sub64 s.src.highestSent s.src.lastAcked) : Int) =
          s.src.highestSent - s.src.lastAcked
  | _ => True

variable (cfg) in
/-- An ack that the source takes, and that is not from the past, finds room. -/
def FindsRoom (s : Flow (TcpSrc D) TcpSink) : Act → Prop
  | .deliverAck i =>
      ∀ p ∈ s.acks[i]?, s.Takes (tcpEndhost cfg) p → s.src.lastAcked ≤ p.ackno →
        s.src.Room p.ackno
  | _ => True

instance (s : Flow (TcpSrc D) TcpSink) : ∀ a : Act, Decidable (FindsRoom cfg s a)
  | .deliverAck i => inferInstanceAs (Decidable (∀ p ∈ s.acks[i]?, _))
  | .event | .advance _ | .deliverData _ | .dataFault _ | .ackFault _ | .markEcn _ =>
      inferInstanceAs (Decidable True)

/-- What the guard keeps. -/
structure WindowInv (cfg : TcpConfig D) (s : Flow (TcpSrc D) TcpSink) : Prop where
  inv : Inv (tcpEndhost cfg) s
  quiet : s.Quiet
  windowed : s.src.Windowed

theorem windowInv_init (flowsize duration startTime endtime : Nat) :
    WindowInv cfg (init (tcpEndhost cfg) flowsize duration startTime endtime) where
  inv := inv_init flowsize duration startTime endtime
  quiet := quiet_init flowsize duration startTime endtime
  windowed := by
    obtain ⟨-, -, hhigh, hlow, -⟩ := DataSource.new_spec flowsize duration startTime endtime
    constructor
    · exact fun _ => ⟨hhigh, hlow⟩
    · exact fun hstate => absurd rfl hstate
    · show 0 < 2 ^ 32
      decide
    · show 2 * MSS_BYTES ≤ 2 ^ 32 - 1 ∧ 2 ^ 32 - 1 < 2 ^ 32
      decide
    · exact fun hstate => absurd rfl hstate
    · show (DataSource.new flowsize duration startTime endtime).highestSent <
        (DataSource.new flowsize duration startTime endtime).lastAcked + 2 ^ 32
      omega

/-- What an ack that is taken, and is not from the past, finds in a run. -/
theorem WindowInv.taken {s : Flow (TcpSrc D) TcpSink} {p : DataAck} {src : TcpSrc D}
    (hplain : cfg.enableDctcp = false) (h : WindowInv cfg s)
    (ht : TcpSrc.Processed s.now p
      (TcpSrc.updateDctcp cfg p.ecnRev (TcpSrc.updateRtt s.now p.ts s.src)) src) :
    ∃ u : TcpSrc D, TcpSrc.Processed s.now p u src ∧ u.Windowed ∧
      u.toDataSource = s.src.toDataSource ∧ u.state = s.src.state ∧
      u.recoverSeq = s.src.recoverSeq ∧ (u.Room p.ackno ↔ s.src.Room p.ackno) := by
  have hw := h.windowed
  obtain ⟨rtt, mdev, rto, hrtt, -⟩ := @TcpSrc.updateRtt_eq _ s.now p.ts s.src
  rw [TcpSrc.updateDctcp_plain hplain, hrtt] at ht
  exact ⟨_, ht, ⟨hw.idle, hw.segment, hw.cwnd, hw.ssthresh, hw.ahead, hw.flight⟩, rfl, rfl, rfl,
    Iff.rfl⟩

theorem windowed_step {s : Flow (TcpSrc D) TcpSink} {a : Act} {src : TcpSrc D}
    (hplain : cfg.enableDctcp = false) (h : WindowInv cfg s) (hsrc : SrcStepped cfg s a src)
    (hroom : FindsRoom cfg s a) : src.Windowed := by
  have hw := h.windowed
  -- what is pending has no part in it
  have hpop : ∀ time, (s.popEvent (tcpEndhost cfg) time).src.Windowed :=
    fun _ => ⟨hw.idle, hw.segment, hw.cwnd, hw.ssthresh, hw.ahead, hw.flight⟩
  cases hsrc with
  | event _ hnext => exact hnext.windowed (hpop _)
  | deleted => exact hpop _
  | @ack i p _ hp hrcvd =>
    have hstarted := h.quiet.started hp
    cases hrcvd with
    | ignored => exact hw
    | finishes =>
      have hout : Tcp.FlowStatus.finish ≠ .idle := nofun
      exact ⟨fun hidle => absurd hidle hout, fun _ => hw.segment hstarted, hw.cwnd, hw.ssthresh,
        fun _ hfin => absurd rfl hfin, hw.flight⟩
    | taken hfin hgo hlow ht =>
      have htakes : s.Takes (tcpEndhost cfg) p := ⟨decide_eq_false hfin, hgo⟩
      obtain ⟨u, hu, huw, hsource, hstate, -, hroom'⟩ := h.taken hplain ht
      have hflow : 0 < s.src.flowsize → p.ackno < s.src.flowsize := by
        unfold DataSource.Completes at hgo
        omega
      refine hu.windowed huw ?_ ?_ ?_ ?_ ?_ ?_
      · rw [hstate]
        exact hstarted
      · rw [hstate]
        exact hfin
      · rw [hsource]
        exact hflow
      · rw [hsource]
        exact hlow
      · rw [hsource]
        exact add_mss_le_of_dvd h.inv.segmented.lastAcked
          (h.inv.acks p (List.mem_of_getElem? hp)).1
      · exact hroom'.mpr (hroom p hp htakes hlow)
  | same => exact hw

/-- Under the guard both differences are exact. -/
theorem flightExact_of_findsRoom {s : Flow (TcpSrc D) TcpSink} {a : Act} (h : WindowInv cfg s)
    (hroom : FindsRoom cfg s a) : FlightExact cfg s a := by
  have hflight := h.windowed.flight
  cases a with
  | deliverAck i =>
    intro p hp htakes hstate hnew hfull
    have hle := hroom p hp htakes hnew.le
    unfold TcpSrc.Room at hle
    rw [if_pos hnew, if_neg (not_not.mpr hstate), if_pos hfull] at hle
    exact TcpSrc.u32_sub64_eq hle (by omega)
  | event =>
    intro _ hstate
    have hidle : s.src.state ≠ .idle := by
      rw [hstate]
      exact nofun
    have hfin : s.src.state ≠ .finish := by
      rw [hstate]
      exact nofun
    exact TcpSrc.u32_sub64_eq (h.windowed.ahead hidle hfin).le hflight
  | _ => trivial

theorem windowInv_step (hplain : cfg.enableDctcp = false) (s : Flow (TcpSrc D) TcpSink) (a : Act)
    (t : Flow (TcpSrc D) TcpSink) (h : WindowInv cfg s)
    (hstep : (system (tcpEndhost cfg)).step s a = some t) (hroom : FindsRoom cfg s a) :
    WindowInv cfg t ∧ FlightExact cfg s a :=
  ⟨{ inv := inv_step s a t h.inv hstep
     quiet := quiet_step s a t h.quiet hstep
     windowed := windowed_step hplain h (srcStepped hstep) hroom },
    flightExact_of_findsRoom h hroom⟩

/-- A step that keeps the property found room. -/
theorem findsRoom_of_window (hplain : cfg.enableDctcp = false) (s : Flow (TcpSrc D) TcpSink)
    (a : Act) (t : Flow (TcpSrc D) TcpSink) (h : WindowInv cfg s)
    (hstep : (system (tcpEndhost cfg)).step s a = some t) (hok : t.WindowOk)
    (hexact : FlightExact cfg s a) : FindsRoom cfg s a := by
  cases a with
  | deliverAck i =>
    intro p hp htakes hlow
    have hfin : s.src.state ≠ .finish := of_decide_eq_false htakes.1
    have hsrc : t.src = TcpSrc.receivePacket cfg s.now p s.src := deliverAck_src hp hstep
    -- the ack that was taken was processed, in the state that the updates before it left
    have ht : TcpSrc.Processed s.now p
        (TcpSrc.updateDctcp cfg p.ecnRev (TcpSrc.updateRtt s.now p.ts s.src)) t.src := by
      rw [hsrc, TcpSrc.receivePacket_eq hfin htakes.2, if_neg (Nat.not_lt.mpr hlow)]
      exact TcpSrc.processed _ _ _
    obtain ⟨u, hu, huw, hsource, hstate, hseq, hroom⟩ := h.taken hplain ht
    have hstarted : t.src.state ≠ .idle := by
      rw [hsrc]
      exact (TcpSrc.received cfg s.now p s.src).started (h.quiet.started hp)
    rw [← hroom]
    refine hu.room huw ?_ (hok hstarted) ?_
    · rw [hsource]
      exact hlow
    · rw [hsource, hstate, hseq]
      intro hfast hnew hfull
      have hsub := hexact p hp htakes hfast hnew hfull
      omega
  | _ => trivial

/-- In a run of a `TcpSrc` without DCTCP the window is at least a segment and the flight
    sizes are exact, exactly when all its acks find room. -/
theorem window_iff_findsRoom (cfg : TcpConfig D) (hplain : cfg.enableDctcp = false)
    (flowsize duration startTime endtime : Nat) (acts : List Act) :
    (system (tcpEndhost cfg)).Always WindowOk
          (init (tcpEndhost cfg) flowsize duration startTime endtime) acts ∧
        (system (tcpEndhost cfg)).Along (FlightExact cfg)
          (init (tcpEndhost cfg) flowsize duration startTime endtime) acts ↔
      (system (tcpEndhost cfg)).Along (FindsRoom cfg)
        (init (tcpEndhost cfg) flowsize duration startTime endtime) acts :=
  Lts.always_and_along_iff (fun _ h => h.windowed.segment) (windowInv_step hplain)
    (findsRoom_of_window hplain) acts (windowInv_init flowsize duration startTime endtime)

/-- One of four segments is lost, and recovered. -/
def recovery : List Act :=
  [.event, .deliverData 0, .deliverData 0, .deliverAck 0, .deliverAck 0,
    .dataFault (.lose 0), .deliverData 0, .deliverData 0, .deliverData 0,
    .deliverAck 0, .deliverAck 0, .deliverAck 0, .deliverData 0, .deliverAck 0]

theorem recovery_isSome :
    ((system (tcpEndhost plainTcp)).run (init (tcpEndhost plainTcp) 0 0 0 0) recovery).isSome
      = true := by
  decide +kernel

/-- The acks of that run find room, and so the window is kept through fast recovery. -/
theorem window_iff_findsRoom_recovery :
    (∃ t, (system (tcpEndhost plainTcp)).run (init (tcpEndhost plainTcp) 0 0 0 0) recovery =
        some t ∧ t.src.state = .congAvoid ∧ t.src.cwnd = 1500) ∧
      (system (tcpEndhost plainTcp)).Always WindowOk
        (init (tcpEndhost plainTcp) 0 0 0 0) recovery ∧
      (system (tcpEndhost plainTcp)).Along (FlightExact plainTcp)
        (init (tcpEndhost plainTcp) 0 0 0 0) recovery :=
  ⟨⟨_, (Option.some_get recovery_isSome).symm, by decide +kernel⟩,
    (window_iff_findsRoom plainTcp rfl 0 0 0 0 recovery).mpr (by decide +kernel)⟩

/-! ## A run in which an ack does not -/

/-- The second of four segments is lost and the first is late, so that the source times out
    twice and takes 4500 for its recovery point.  The copies of the first arrive; the second
    is lost again, and three duplicate acks start fast recovery. -/
def wrappedFlight : List Act :=
  [.event, .deliverData 0, .deliverData 0, .deliverAck 0, .deliverAck 0,
    .dataFault (.lose 1), .deliverData 1, .deliverData 1,
    .ackFault (.lose 0), .ackFault (.lose 0)] ++
    List.replicate 39 .event ++
    [.deliverData 0, .deliverData 0, .deliverData 0, .deliverAck 0, .deliverAck 0, .deliverAck 0,
      .dataFault (.lose 0), .deliverData 0, .deliverAck 0, .deliverData 0]

theorem wrappedFlight_isSome :
    ((system (tcpEndhost plainTcp)).run (init (tcpEndhost plainTcp) 0 0 0 0) wrappedFlight).isSome
      = true := by
  decide +kernel

theorem wrappedFlight_step_isSome :
    (step (tcpEndhost plainTcp)
      (((system (tcpEndhost plainTcp)).run (init (tcpEndhost plainTcp) 0 0 0 0) wrappedFlight).get
        wrappedFlight_isSome) (.deliverAck 0)).isSome = true := by
  decide +kernel

/-- The sink has all four segments, and its ack is a segment beyond `_highest_sent`: the
    difference wraps, and the window with it. -/
theorem wrappedFlight_breaks :
    ∃ s t, (system (tcpEndhost plainTcp)).run (init (tcpEndhost plainTcp) 0 0 0 0) wrappedFlight =
        some s ∧
      (system (tcpEndhost plainTcp)).step s (.deliverAck 0) = some t ∧
      s.src.state = .fastRecov ∧ s.src.highestSent = 7500 ∧ s.acks.map DataAck.ackno = [9000] ∧
      t.src.state = .congAvoid ∧ t.src.cwnd = 0 ∧ ¬ t.WindowOk := by
  refine ⟨_, _, (Option.some_get wrappedFlight_isSome).symm,
    (Option.some_get wrappedFlight_step_isSome).symm, ?_⟩
  decide +kernel

end Flow
end Htsim
end DatacenterNetworking
