/-
  DatacenterNetworking.Htsim.TcpResend

  When does `TcpSrc` send data again that is acked?  A timeout sets `_highest_sent`
  back.  The sink may hold later segments, so that the ack of the first segment
  sent again is beyond `_highest_sent`; `sendPackets` then goes on from there.

  `neverResends_iff_noOvertake`: this is the only way it happens, and whenever an
  ack overtakes `_highest_sent` it does.
-/

import DatacenterNetworking.Htsim.Tcp

namespace DatacenterNetworking
namespace Htsim
namespace TcpSrc

variable {D : Type} {cfg : TcpConfig D} {now : Nat}

/-! ## A source that was overtaken -/

/-- With a whole segment acked beyond `_highest_sent`, `sendPackets` sends what is acked. -/
theorem sendPackets_stale {s : TcpSrc D} (hall : ¬ s.AllSent)
    (hgap : s.highestSent + MSS_BYTES ≤ s.lastAcked) :
    ∃ e ∈ (sendPackets now s).sent, ¬ e.Fresh := by
  have hpos : 0 < MSS_BYTES := by decide
  -- the loop has a round to go
  obtain ⟨fuel, hfuel⟩ : ∃ fuel,
      (s.lastAcked + s.cwnd - s.highestSent) / MSS_BYTES = fuel + 1 := by
    have hone : 1 ≤ (s.lastAcked + s.cwnd - s.highestSent) / MSS_BYTES := by
      rw [Nat.le_div_iff_mul_le hpos]
      omega
    exact ⟨_, (Nat.sub_add_cancel hone).symm⟩
  -- and its segment is below `_last_acked`
  have hfirst : ⟨DataPacket.newpkt (s.highestSent + 1) now, s.lastAcked⟩ ∈
      (sendNext now s).sent := by
    rw [sendNext_source]
    exact List.mem_append_right _ (List.mem_singleton_self _)
  refine ⟨⟨DataPacket.newpkt (s.highestSent + 1) now, s.lastAcked⟩, ?_, ?_⟩
  · rw [sendPackets, if_neg hall, hfuel]
    simp only [sendLoop]
    rw [if_pos (by omega)]
    split_ifs with hdone
    · exact hfirst
    · have hrest : DataSource.Moves none (sendNext now s).toDataSource
          (sendLoop now fuel (sendNext now s)).toDataSource :=
        sendLoop_moves fuel (DataSource.Moves.refl _) hdone
      exact hrest.grown.sent.subset hfirst
  · show ¬ s.lastAcked < s.highestSent + 1
    omega

/-- Every branch for a new ack then sends what is acked. -/
theorem newAck_stale {ackno : Nat} {s : TcpSrc D} (hall : ¬ s.AllSent)
    (hgap : s.highestSent + MSS_BYTES ≤ ackno) :
    ∃ e ∈ (newAck now ackno s).sent, ¬ e.Fresh := by
  simp only [newAck]
  split_ifs
  · apply sendPackets_stale
    · rw [inflateWindow_source]
      exact hall
    · rw [inflateWindow_source]
      exact hgap
  · exact sendPackets_stale hall hgap
  · apply sendPackets_stale
    · rw [retransmitPacket_source]
      exact hall
    · rw [retransmitPacket_source]
      exact hgap

theorem receivePacket_stale {a : DataAck} {s : TcpSrc D} (hstate : s.state ≠ .finish)
    (hgo : ¬ s.Completes now a.ackno) (hle : s.lastAcked ≤ s.highestSent)
    (hgap : s.highestSent + MSS_BYTES ≤ a.ackno) :
    ∃ e ∈ (receivePacket cfg now a s).sent, ¬ e.Fresh := by
  have hpos : 0 < MSS_BYTES := by decide
  have hsame : (updateDctcp cfg a.ecnRev (updateRtt now a.ts s)).toDataSource =
      s.toDataSource := by simp
  have hall : ¬ s.AllSent := by
    unfold DataSource.Completes at hgo
    simp only [DataSource.AllSent]
    omega
  rw [receivePacket_eq hstate hgo, if_neg (by omega), processAck, hsame, if_pos (by omega)]
  apply newAck_stale
  · rw [hsame]
    exact hall
  · rw [hsame]
    exact hgap

end TcpSrc

namespace Flow

variable {D : Type} {cfg : TcpConfig D}

/-- No data was acked when it was sent. -/
def NeverResends {S K : Type} (E : Endhost S K) (s : Flow S K) : Prop :=
  ∀ e ∈ (E.source s.src).sent, e.Fresh

/-- Everything sent so far was fresh only if the source is ahead. -/
structure ResendInv (cfg : TcpConfig D) (s : Flow (TcpSrc D) TcpSink) : Prop where
  inv : Inv (tcpEndhost cfg) s
  le : s.NeverResends (tcpEndhost cfg) → s.src.lastAcked ≤ s.src.highestSent

/-- An ack beyond `_highest_sent` is beyond it by a segment at least. -/
theorem gap_of_overtaken {s : Flow (TcpSrc D) TcpSink} {p : DataAck}
    (h : Inv (tcpEndhost cfg) s) (hp : p ∈ s.acks) (hlt : s.src.highestSent < p.ackno) :
    s.src.highestSent + MSS_BYTES ≤ p.ackno :=
  add_mss_le_of_dvd h.segmented.highestSent (h.acks p hp).1 hlt

theorem neverResends_step (s : Flow (TcpSrc D) TcpSink) (a : Act) (t : Flow (TcpSrc D) TcpSink)
    (h : ResendInv cfg s) (hP : s.NeverResends (tcpEndhost cfg))
    (hstep : (system (tcpEndhost cfg)).step s a = some t) :
    t.NeverResends (tcpEndhost cfg) ↔ s.NoOvertake (tcpEndhost cfg) a := by
  constructor
  · -- an ack that overtakes is a whole segment ahead, and the source sends that segment
    intro ht
    by_contra hover
    obtain ⟨i, p, rfl, hp, htakes, hlt⟩ := overtaken hover
    have hgap := gap_of_overtaken h.inv (List.mem_of_getElem? hp) hlt
    obtain ⟨e, he, hstale⟩ : ∃ e ∈ (TcpSrc.receivePacket cfg s.now p s.src).sent, ¬ e.Fresh :=
      TcpSrc.receivePacket_stale (of_decide_eq_false htakes.1) htakes.2 (h.le hP) hgap
    have hsrc := deliverAck_src hp hstep
    refine hstale (ht e ?_)
    rw [hsrc]
    exact he
  · intro hguard
    exact (ahead_step ⟨h.le hP, hP⟩ hguard hstep).fresh

theorem resendInv_step (s : Flow (TcpSrc D) TcpSink) (a : Act) (t : Flow (TcpSrc D) TcpSink)
    (h : ResendInv cfg s) (hstep : (system (tcpEndhost cfg)).step s a = some t) :
    ResendInv cfg t where
  inv := inv_step s a t h.inv hstep
  le := fun ht => by
    -- nothing stale was sent before either, and the step was guarded
    have hgrown : (tcpEndhost cfg).source s.src |>.Grown ((tcpEndhost cfg).source t.src) := by
      rcases (stepped hstep).moves with hmoves | ⟨_, _, _, _, _, hmoves⟩
      · exact hmoves.grown
      · exact hmoves.grown
    have hP : s.NeverResends (tcpEndhost cfg) := fun e he => ht e (hgrown.sent.subset he)
    have hguard := (neverResends_step s a t h hP hstep).mp ht
    exact (ahead_step (E := tcpEndhost cfg) ⟨h.le hP, hP⟩ hguard hstep).le

/-- `TcpSrc` sends acked data in a run exactly when it takes an ack beyond
    `_highest_sent` in it. -/
theorem neverResends_iff_noOvertake (cfg : TcpConfig D)
    (flowsize duration startTime endtime : Nat) (acts : List Act) :
    (system (tcpEndhost cfg)).Always (NeverResends (tcpEndhost cfg))
        (init (tcpEndhost cfg) flowsize duration startTime endtime) acts ↔
      (system (tcpEndhost cfg)).Along (NoOvertake (tcpEndhost cfg))
        (init (tcpEndhost cfg) flowsize duration startTime endtime) acts := by
  have hahead := DataSource.ahead_new flowsize duration startTime endtime
  exact Lts.always_iff_along resendInv_step neverResends_step acts
    ⟨inv_init flowsize duration startTime endtime, fun _ => hahead.le⟩ hahead.fresh

/-! ## A run in which it happens -/

/-- Two segments are sent, the first is lost and the ack for the second is late.  The
    timeout sends the first again, and its ack is for both. -/
def lateAck : List Act :=
  [.event, .dataFault (.lose 0), .advance 10000000, .deliverData 0] ++
    List.replicate 13 .event ++ [.deliverData 0, .deliverAck 1]

theorem lateAck_isSome :
    ((system (tcpEndhost plainTcp)).run (init (tcpEndhost plainTcp) 15000 0 0 0)
      lateAck).isSome = true := by
  decide +kernel

/-- With byte 3000 acked the source sends the segment that starts at byte 1501. -/
theorem lateAck_resends :
    ∃ t, (system (tcpEndhost plainTcp)).run (init (tcpEndhost plainTcp) 15000 0 0 0) lateAck =
        some t ∧
      ¬ t.NeverResends (tcpEndhost plainTcp) ∧
      ∃ e ∈ t.src.sent, e.pkt.seqno = 1501 ∧ e.lastAcked = 3000 := by
  have hsent : ∃ e ∈ (((system (tcpEndhost plainTcp)).run
      (init (tcpEndhost plainTcp) 15000 0 0 0) lateAck).get lateAck_isSome).src.sent,
      e.pkt.seqno = 1501 ∧ e.lastAcked = 3000 := by
    decide +kernel
  refine ⟨_, (Option.some_get lateAck_isSome).symm, fun hnever => ?_, hsent⟩
  obtain ⟨e, he, hseq, hlast⟩ := hsent
  have hfresh : e.lastAcked < e.pkt.seqno := hnever e he
  omega

end Flow
end Htsim
end DatacenterNetworking
