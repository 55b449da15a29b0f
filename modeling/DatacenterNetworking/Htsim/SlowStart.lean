/-
  DatacenterNetworking.Htsim.SlowStart

  How long a flow takes over a prompt network without DCTCP.  Each ack lets a slow-starting
  `TcpSrc` send two segments, so that what is sent doubles in every round trip: when `j`
  segments are acked, `2 * j + 2` are sent, or all.

    * `roundOf`            — the round in which a segment is sent;
    * `Doubling`           — what holds in every run, with the times of sending;
    * `slowStart_finishes` — a flow of `n` segments is finished within `log 2 (n + 1)` round
      trips.
-/

import DatacenterNetworking.Htsim.Completion
import DatacenterNetworking.Htsim.TcpPrompt
import Mathlib.Data.Nat.Log

namespace DatacenterNetworking
namespace Htsim

/-- The number of segments of a flow. -/
def segmentCount (flowsize : Nat) : Nat := (flowsize + (MSS_BYTES - 1)) / MSS_BYTES

theorem segmentCount_le_iff {flowsize n : Nat} :
    segmentCount flowsize ≤ n ↔ flowsize ≤ n * MSS_BYTES := by
  have hmss : MSS_BYTES = 1500 := rfl
  rw [segmentCount, hmss]
  omega

theorem lt_segmentCount_iff {flowsize n : Nat} :
    n < segmentCount flowsize ↔ n * MSS_BYTES < flowsize := by
  rw [← not_le, ← not_le, segmentCount_le_iff]

/-- The round trip in which segment `i` is sent, from 0 on. -/
def roundOf (i : Nat) : Nat := Nat.log 2 (i / 2 + 1)

/-- A segment that is sent when `j` is acked is sent a round later. -/
theorem roundOf_succ_le {i j : Nat} (h : 2 * j + 2 ≤ i) : roundOf j + 1 ≤ roundOf i := by
  have hpos : j / 2 + 1 ≠ 0 := Nat.succ_ne_zero _
  rw [roundOf, roundOf, ← Nat.log_mul_base (by decide) hpos]
  exact Nat.log_mono_right (by omega)

/-- The last of `n` segments is acked by then. -/
theorem roundOf_succ_le_log {i n : Nat} (h : i < n) : roundOf i + 1 ≤ Nat.log 2 (n + 1) := by
  have hpos : i / 2 + 1 ≠ 0 := Nat.succ_ne_zero _
  rw [roundOf, ← Nat.log_mul_base (by decide) hpos]
  exact Nat.log_mono_right (by omega)

namespace TcpSrc

variable {D : Type} {cfg : TcpConfig D} {now : Nat} {s : TcpSrc D}

/-- An ack of a segment lets the window grow by one. -/
theorem increment_slowStart {d : Nat} (hd : s.lastAcked + s.cwnd = s.highestSent + d)
    (hlow : MSS_BYTES ≤ d) (hsmall : d < 2 ^ 31) (hthresh : s.cwnd + MSS_BYTES ≤ s.ssthresh) :
    increment s = MSS_BYTES := by
  have hmss : MSS_BYTES = 1500 := rfl
  have hsub : sub64 (s.lastAcked + s.cwnd) s.highestSent = d := by
    rw [sub64, if_pos (by omega)]
    omega
  have hnat : (BitVec.ofNat 32 d).toNat = d := by
    rw [BitVec.toNat_ofNat, Nat.mod_eq_of_lt (by omega)]
  have hnew : newlyAcked s.lastAcked s = d := by
    rw [newlyAcked, hsub, BitVec.toInt_eq_toNat_of_lt (by rw [hnat]; omega), hnat]
  simp only [increment, hnew]
  rw [if_neg (by omega), if_pos (by omega)]
  omega

/-- The ack of a segment in slow start, without DCTCP. -/
theorem expected_slowStart {a : DataAck} {d : Nat} (hplain : cfg.enableDctcp = false)
    (hd : a.ackno + s.cwnd = s.highestSent + d) (hlow : MSS_BYTES ≤ d) (hsmall : d < 2 ^ 31)
    (hthresh : s.cwnd + MSS_BYTES ≤ s.ssthresh) (hmax : s.ssthresh < 2 ^ 32) :
    (expected cfg now a s).cwnd = s.cwnd + MSS_BYTES ∧
      (expected cfg now a s).ssthresh = s.ssthresh ∧
      (expected cfg now a s).state = s.state := by
  obtain ⟨rtt, mdev, rto, hrtt, -⟩ := @updateRtt_eq _ now a.ts s
  have hdctcp : updateDctcp cfg a.ecnRev (updateRtt now a.ts s) =
      { s with rtt := rtt, mdev := mdev, rto := rto } := by
    rw [updateDctcp, if_neg (by rw [hplain]; exact Bool.false_ne_true), hrtt]
  have hsame : (taken cfg now a s).cwnd = s.cwnd ∧ (taken cfg now a s).ssthresh = s.ssthresh ∧
      (taken cfg now a s).state = s.state ∧ (taken cfg now a s).highestSent = s.highestSent := by
    rw [taken, hdctcp]
    exact ⟨rfl, rfl, rfl, rfl⟩
  obtain ⟨hcwnd, hssthresh, hstate, hhigh⟩ := hsame
  have hgrow : increment (taken cfg now a s) = MSS_BYTES := by
    refine increment_slowStart (d := d) ?_ hlow hsmall ?_
    · rw [hcwnd, hhigh]
      exact hd
    · rw [hcwnd, hssthresh]
      exact hthresh
  have hlt : (taken cfg now a s).cwnd < 2 ^ 32 := by
    rw [hcwnd]
    omega
  have hsum : u32 (s.cwnd + MSS_BYTES) = s.cwnd + MSS_BYTES := Nat.mod_eq_of_lt (by omega)
  rw [expected, inflateWindow_eq hlt, hgrow, hcwnd]
  exact ⟨hsum, hssthresh, hstate⟩

/-- With `j` segments acked and a window of `j + 2`, what is sent are `2 * j + 2` segments, or
    all. -/
theorem sendPackets_window {flowsize j k m : Nat} (hflow : s.flowsize = flowsize)
    (hlow : s.lastAcked = j * MSS_BYTES) (hcwnd : s.cwnd = (j + 2) * MSS_BYTES)
    (hhigh : s.highestSent = k * MSS_BYTES) (hk : k ≤ 2 * j + 2)
    (hm : (sendPackets now s).highestSent = m * MSS_BYTES) (hle : m ≤ segmentCount flowsize) :
    m = min (segmentCount flowsize) (2 * j + 2) := by
  have hmss : MSS_BYTES = 1500 := rfl
  have hsends : Sends s (sendPackets now s) := sends_sendPackets s
  have hwithin := hsends.within
  have hlast := hsends.lastAcked
  have hcwnd' := hsends.cwnd
  -- no more than the window
  have hup : m ≤ 2 * j + 2 := by
    rw [hm, hhigh, hlow, hcwnd, hmss] at hwithin
    omega
  rcases @sendPackets_done _ now s with ⟨-, hall⟩ | hfull
  · rw [hsends.flowsize, hflow, hm] at hall
    have hcount := segmentCount_le_iff.mpr hall
    omega
  · rw [hlast, hcwnd', hm, hlow, hcwnd, hmss] at hfull
    omega

end TcpSrc

namespace Flow

open TcpSrc

variable {D : Type} {cfg : TcpConfig D} {flowsize startTime R : Nat}

/-- In slow start what is sent doubles with what is acked, and segment `i` was sent after
    `roundOf i` round trips at most. -/
structure Doubling (cfg : TcpConfig D) (flowsize startTime R : Nat)
    (s : Flow (TcpSrc D) TcpSink) : Prop where
  smooth : Smooth s
  sized : SizedInv (tcpEndhost cfg) flowsize s
  recent : ∀ x ∈ s.flight, s.now ≤ x + R
  ssthresh : s.src.ssthresh = 2 ^ 32 - 1
  idle : s.src.state = .idle →
    s.src.sent = [] ∧ s.src.pending = [startTime] ∧ s.now ≤ startTime
  running : s.src.state ≠ .idle → s.src.state ≠ .finish →
    s.src.state = .slowStart ∧ s.src.cwnd = (s.heard + 2) * MSS_BYTES ∧
      s.src.sent.length = min (segmentCount flowsize) (2 * s.heard + 2)
  sentBy : ∀ i e, s.src.sent[i]? = some e → e.pkt.ts ≤ startTime + roundOf i * R

theorem doubling_init {endtime : Nat} (hsize : 0 < flowsize)
    (hstart : endtime = 0 ∨ startTime ≤ endtime) :
    Doubling cfg flowsize startTime R (init (tcpEndhost cfg) flowsize 0 startTime endtime) where
  smooth := smooth_init flowsize 0 startTime endtime
  sized := sizedInv_init hsize startTime endtime
  recent := fun _ hx => absurd hx List.not_mem_nil
  ssthresh := rfl
  idle := fun _ => by
    refine ⟨(DataSource.new_spec flowsize 0 startTime endtime).2.2.2.2.1, ?_, Nat.zero_le _⟩
    show (DataSource.new flowsize 0 startTime endtime).pending = _
    rw [DataSource.new, DataSource.sourceIsPending, if_pos hstart]
    rfl
  running := fun hidle => absurd rfl hidle
  sentBy := fun i e he => by
    have hsent : (init (tcpEndhost cfg) flowsize 0 startTime endtime).src.sent = [] :=
      (DataSource.new_spec flowsize 0 startTime endtime).2.2.2.2.1
    rw [hsent] at he
    cases he

variable {s t : Flow (TcpSrc D) TcpSink}

/-- Nothing is sent beyond the flow. -/
theorem sent_le (hin : InLine s) (hsized : SizedInv (tcpEndhost cfg) flowsize s) :
    s.src.sent.length ≤ segmentCount flowsize := by
  by_contra hlt
  rw [Nat.not_le] at hlt
  have hget := List.getElem?_eq_getElem hlt
  have hnum := hin.numbered (segmentCount flowsize) s.src.sent[segmentCount flowsize].pkt
    (by rw [List.getElem?_map, hget, Option.map_some])
  have hwithin := hsized.within.sent _ (List.getElem_mem hlt)
  have hflow : s.src.flowsize = flowsize := hsized.flowsize
  rw [show (tcpEndhost cfg).source s.src = s.src.toDataSource from rfl, hflow, hnum] at hwithin
  have hlast : segmentCount flowsize * MSS_BYTES + 1 ≤ flowsize := hwithin
  exact absurd (lt_segmentCount_iff.mpr hlast) (Nat.lt_irrefl _)

/-- What is in flight after segments are sent. -/
theorem mem_flight_sends {now n low x : Nat} (hs : InLine s) (ht : InLine t)
    (hsent : t.src.sent = s.src.sent ++
      (segments now s.src.sent.length n).map fun p => ⟨p, low⟩)
    (hheard : s.heard ≤ t.heard) (hx : x ∈ t.flight) : x ∈ s.flight ∨ x = now := by
  rw [ht.flight_eq, hsent, List.drop_append, List.map_append] at hx
  rcases List.mem_append.mp hx with hx | hx
  · left
    rw [hs.flight_eq]
    refine List.Sublist.subset (List.Sublist.map _ ?_) hx
    exact List.drop_sublist_drop_left _ hheard
  · right
    obtain ⟨e, he, rfl⟩ := List.mem_map.mp hx
    obtain ⟨p, hp, rfl⟩ := List.mem_map.mp (List.mem_of_mem_drop he)
    obtain ⟨i, -, rfl⟩ := List.mem_map.mp hp
    rfl

/-- When segments were sent, after they are sent. -/
theorem sentBy_sends {now n low : Nat}
    (h : ∀ i e, s.src.sent[i]? = some e → e.pkt.ts ≤ startTime + roundOf i * R)
    (hsent : t.src.sent = s.src.sent ++
      (segments now s.src.sent.length n).map fun p => ⟨p, low⟩)
    (hnow : ∀ i, s.src.sent.length ≤ i → i < t.src.sent.length →
      now ≤ startTime + roundOf i * R) :
    ∀ i e, t.src.sent[i]? = some e → e.pkt.ts ≤ startTime + roundOf i * R := by
  intro i e he
  have hlt := (List.getElem?_eq_some_iff.mp he).1
  rcases Nat.lt_or_ge i s.src.sent.length with hold | hnew
  · rw [hsent, List.getElem?_append_left hold] at he
    exact h i e he
  · rw [hsent, List.getElem?_append_right hnew, List.getElem?_map] at he
    obtain ⟨p, hp, rfl⟩ := Option.map_eq_some_iff.mp he
    obtain ⟨j, -, rfl⟩ := List.mem_map.mp (List.mem_of_getElem? hp)
    exact hnow i hnew hlt

/-- Where the source does not change. -/
theorem Doubling.keep (h : Doubling cfg flowsize startTime R s) (hsmooth : Smooth t)
    (hsized : SizedInv (tcpEndhost cfg) flowsize t) (hrecent : ∀ x ∈ t.flight, t.now ≤ x + R)
    (hstate : t.src.state = s.src.state) (hssthresh : t.src.ssthresh = s.src.ssthresh)
    (hcwnd : t.src.cwnd = s.src.cwnd) (hsent : t.src.sent = s.src.sent)
    (hheard : t.heard = s.heard)
    (hidle : t.src.state = .idle → t.src.pending = s.src.pending ∧ t.now ≤ startTime) :
    Doubling cfg flowsize startTime R t where
  smooth := hsmooth
  sized := hsized
  recent := hrecent
  ssthresh := hssthresh.trans h.ssthresh
  idle := fun hs => by
    obtain ⟨hpending, hnow⟩ := hidle hs
    obtain ⟨hnil, hpend, -⟩ := h.idle (hstate.symm.trans hs)
    exact ⟨hsent.trans hnil, hpending.trans hpend, hnow⟩
  running := by
    rw [hstate, hcwnd, hsent, hheard]
    exact h.running
  sentBy := by
    rw [hsent]
    exact h.sentBy

/-- The source has sent what its window allows. -/
theorem Doubling.sends {now low : Nat} {u : TcpSrc D} {times : List Nat}
    (h : Doubling cfg flowsize startTime R s) (hsmooth : Smooth t)
    (hsized : SizedInv (tcpEndhost cfg) flowsize t) (hnow : t.now = now)
    (hsrc : t.src = withPending times (sendPackets now u))
    (hu : u.sent = s.src.sent ∧ u.highestSent = s.src.highestSent ∧ u.lastAcked = low ∧
      u.flowsize = s.src.flowsize)
    (hstate : u.state = .slowStart) (hssthresh : u.ssthresh = 2 ^ 32 - 1)
    (hlow : low = t.heard * MSS_BYTES) (hcwnd : u.cwnd = (t.heard + 2) * MSS_BYTES)
    (hheard : s.heard ≤ t.heard) (hk : s.src.sent.length ≤ 2 * t.heard + 2)
    (hrecent : ∀ x ∈ s.flight, now ≤ x + R)
    (hround : ∀ i, s.src.sent.length ≤ i → i < segmentCount flowsize →
      now ≤ startTime + roundOf i * R) : Doubling cfg flowsize startTime R t := by
  obtain ⟨hsent, hhigh, hlast, hflow⟩ := hu
  have hk' : u.highestSent = s.src.sent.length * MSS_BYTES :=
    hhigh.trans h.smooth.inLine.highestSent
  obtain ⟨n, hn⟩ := @sendPackets_segments _ now _ u hk'
  have hall : t.src.sent = s.src.sent ++
      (segments now s.src.sent.length n).map fun p => ⟨p, low⟩ := by
    rw [hsrc, hn, ← hsent, ← hlast]
    rfl
  have hstate' : t.src.state = .slowStart := by
    rw [hsrc]
    exact (sendPackets_state u).trans hstate
  have hsends : Sends u (sendPackets now u) := sends_sendPackets u
  have hle := sent_le hsmooth.inLine hsized
  refine ⟨hsmooth, hsized, fun x hx => ?_, ?_, fun hidle => ?_, fun _ _ => ⟨hstate', ?_, ?_⟩, ?_⟩
  · rw [hnow]
    rcases mem_flight_sends h.smooth.inLine hsmooth.inLine hall hheard hx with hold | rfl
    · exact hrecent x hold
    · exact Nat.le_add_right _ _
  · rw [hsrc]
    exact hsends.ssthresh.trans hssthresh
  · rw [hstate'] at hidle
    cases hidle
  · rw [hsrc]
    exact hsends.cwnd.trans hcwnd
  · have hhigh' : (sendPackets now u).highestSent = t.src.sent.length * MSS_BYTES := by
      rw [← hsmooth.inLine.highestSent, hsrc]
      rfl
    exact sendPackets_window (hflow.trans h.sized.flowsize) (hlast.trans hlow) hcwnd hk' hk hhigh'
      hle
  · exact sentBy_sends h.sentBy hall fun i hlow hi => hround i hlow (hi.trans_le hle)

/-- Once segments are sent the first of them is not acked, unless all are. -/
theorem Doubling.heard_lt (h : Doubling cfg flowsize startTime R s) (hidle : s.src.state ≠ .idle)
    (hfin : s.src.state ≠ .finish) :
    s.heard < segmentCount flowsize ∧ s.heard < s.src.sent.length := by
  have hwithin := h.sized.within.lastAcked
  have hflow : s.src.flowsize = flowsize := h.sized.flowsize
  rw [show (tcpEndhost cfg).source s.src = s.src.toDataSource from rfl, hflow,
    h.smooth.inLine.lastAcked hfin] at hwithin
  have hlt := lt_segmentCount_iff.mpr hwithin
  obtain ⟨-, -, hsent⟩ := h.running hidle hfin
  omega

theorem doubling_ack {a : DataAck} {rest : List DataAck} (hplain : cfg.enableDctcp = false)
    (hsmall : flowsize + 3 * MSS_BYTES < 2 ^ 31) (h : Doubling cfg flowsize startTime R s)
    (hacks : s.acks = a :: rest)
    (ht : t = (withAcks rest s).handOn (tcpEndhost cfg) (receivePacket cfg s.now a s.src))
    (hsmooth : Smooth t) (hsized : SizedInv (tcpEndhost cfg) flowsize t) :
    Doubling cfg flowsize startTime R t := by
  obtain ⟨hackno, hheard, hlen, -⟩ := h.smooth.inLine.next_ack hacks
  have hnow : t.now = s.now := by
    rw [ht]
    rfl
  have hnext : t.heard = s.heard + 1 := by
    rw [ht]
    exact hheard.symm
  have hmem : a.ts ∈ s.flight := by
    rw [flight, hacks]
    exact List.mem_cons_self
  have hbefore := h.smooth.inLine.heard_lt hmem
  have hidle : s.src.state ≠ .idle := by
    intro hs
    rw [(h.idle hs).1] at hbefore
    exact Nat.not_lt_zero _ hbefore
  by_cases hfin : s.src.state = .finish ∨ s.src.Completes s.now a.ackno
  · -- the flow is finished, or this ack finishes it
    have hends : t.src.state = .finish := by
      rw [ht]
      exact receivePacket_ends hfin
    have hsource : (receivePacket cfg s.now a s.src).toDataSource = s.src.toDataSource :=
      receivePacket_stop hfin
    have hsame : t.src.sent = s.src.sent := by
      rw [ht]
      show (receivePacket cfg s.now a s.src).sent = _
      rw [hsource]
    have hthresh : t.src.ssthresh = s.src.ssthresh := by
      rw [ht]
      show (receivePacket cfg s.now a s.src).ssthresh = _
      rw [receivePacket]
      split_ifs with hopen hgo
      · rfl
      · rfl
      · exact absurd hfin (not_or.mpr ⟨hopen, hgo⟩)
      · exact absurd hfin (not_or.mpr ⟨hopen, hgo⟩)
    refine ⟨hsmooth, hsized, fun x hx => ?_, hthresh.trans h.ssthresh, fun hs => ?_,
      fun _ hs => absurd hends hs, ?_⟩
    · rw [hnow]
      have hall : t.src.sent = s.src.sent ++
          (segments s.now s.src.sent.length 0).map fun p => ⟨p, 0⟩ := by
        rw [hsame, segments, List.range'_zero, List.map_nil, List.map_nil, List.append_nil]
      rcases mem_flight_sends h.smooth.inLine hsmooth.inLine hall (by omega) hx with hold | rfl
      · exact h.recent x hold
      · exact Nat.le_add_right _ _
    · rw [hends] at hs
      cases hs
    · rw [hsame]
      exact h.sentBy
  · -- a new ack, in slow start
    rw [not_or] at hfin
    obtain ⟨hslow, hcwnd, hsent⟩ := h.running hidle hfin.1
    obtain ⟨hcount, -⟩ := h.heard_lt hidle hfin.1
    have hfast : s.src.state ≠ .fastRecov := h.smooth.punctual.noRecovery
    -- in segments of 1500 bytes
    have hflow : s.heard * 1500 < flowsize := lt_segmentCount_iff.mp hcount
    have hroom : flowsize + 4500 < 2 ^ 31 := hsmall
    have hackno' : a.ackno = (s.heard + 1) * 1500 := hackno
    have hlow : s.src.lastAcked = s.heard * 1500 := h.smooth.inLine.lastAcked hfin.1
    have hhigh : s.src.highestSent = s.src.sent.length * 1500 := h.smooth.inLine.highestSent
    have hwindow : s.src.cwnd = (s.heard + 2) * 1500 := hcwnd
    have hmss : MSS_BYTES = 1500 := rfl
    have hthresh := h.ssthresh
    have htakes : receivePacket cfg s.now a s.src =
        sendPackets s.now (expected cfg s.now a s.src) :=
      receivePacket_expected hfin.1 hfast hfin.2 (by omega)
    have hsource := @expected_source _ cfg s.now a s.src
    obtain ⟨hcwnd', hssthresh', hstate'⟩ := @expected_slowStart _ cfg s.now s.src a
      (a.ackno + s.src.cwnd - s.src.highestSent) hplain (by omega) (by omega) (by omega)
      (by omega) (by omega)
    -- segment `heard` is acked within `R`
    have hts : a.ts ≤ startTime + roundOf s.heard * R := by
      have hline := h.smooth.inLine.flight_eq
      rw [flight, hacks, List.drop_eq_getElem_cons hbefore, List.map_cons, List.map_cons,
        List.cons_append] at hline
      injection hline with hhead
      rw [hhead]
      exact h.sentBy _ _ (List.getElem?_eq_getElem hbefore)
    have hsrc : t.src = withPending (sendPackets s.now (expected cfg s.now a s.src)).pending
        (sendPackets s.now (expected cfg s.now a s.src)) := by
      rw [ht, ← htakes]
      rfl
    have hu : (expected cfg s.now a s.src).sent = s.src.sent ∧
        (expected cfg s.now a s.src).highestSent = s.src.highestSent ∧
        (expected cfg s.now a s.src).lastAcked = a.ackno ∧
        (expected cfg s.now a s.src).flowsize = s.src.flowsize := by
      rw [hsource]
      exact ⟨rfl, rfl, rfl, rfl⟩
    refine h.sends hsmooth hsized hnow hsrc hu (hstate'.trans hslow) (hssthresh'.trans hthresh) ?_
      ?_ (by omega) (by omega) h.recent fun i hi hlt => ?_
    · rw [hnext]
      exact hackno
    · rw [hnext, hcwnd', hwindow, hmss]
      omega
    · have hnow' := h.recent _ hmem
      have hround : roundOf s.heard + 1 ≤ roundOf i := roundOf_succ_le (by omega)
      have hmul := Nat.mul_le_mul_right R hround
      rw [Nat.succ_mul] at hmul
      omega

theorem doubling_event {time : Nat} {src : TcpSrc D} (hR : R < minRto)
    (h : Doubling cfg flowsize startTime R s) (hmin : s.src.pending.min? = some time)
    (hlate : ∀ x ∈ s.flight, time ≤ x + R)
    (hnext : NextEvent time (s.popEvent (tcpEndhost cfg) time).src src)
    (ht : t = (s.popEvent (tcpEndhost cfg) time).handOn (tcpEndhost cfg) src)
    (hsmooth : Smooth t) (hsized : SizedInv (tcpEndhost cfg) flowsize t) :
    Doubling cfg flowsize startTime R t := by
  have hnow : t.now = time := by
    rw [ht]
    rfl
  have hsrc : t.src = src := by
    rw [ht]
    rfl
  have hheard : t.heard = s.heard := by
    rw [ht]
    rfl
  cases hnext with
  | start hidle =>
    obtain ⟨hnil, hpending, -⟩ := h.idle hidle
    have htime : time = startTime := by
      rw [hpending] at hmin
      exact (Option.some.inj hmin).symm
    -- nothing is sent, so nothing is acked
    have hzero : s.heard = 0 := by
      have hlen := h.smooth.inLine.length
      rw [hnil, List.length_nil] at hlen
      rw [heard]
      omega
    obtain ⟨times, htimes⟩ := scheduleCheck_withPending time
      (sendPackets time (begun (s.popEvent (tcpEndhost cfg) time).src))
    refine h.sends (u := begun (s.popEvent (tcpEndhost cfg) time).src) hsmooth hsized hnow
      (hsrc.trans htimes) ⟨rfl, rfl, rfl, rfl⟩ rfl h.ssthresh ?_ ?_ hheard.ge ?_ hlate
      fun i _ _ => ?_
    · rw [hheard]
      refine h.smooth.inLine.lastAcked ?_
      rw [show s.src.state = .idle from hidle]
      exact fun hfin => by cases hfin
    · rw [hheard, hzero]
      rfl
    · rw [hnil, List.length_nil]
      exact Nat.zero_le _
    · rw [htime]
      exact Nat.le_add_right _ _
  | expire hidle hfin htimer =>
    exact absurd htimer (h.smooth.punctual.not_expired hR hlate hfin)
  | check hidle hwait =>
    obtain ⟨times, htimes⟩ := scheduleCheck_withPending time
      (s.popEvent (tcpEndhost cfg) time).src
    rw [htimes] at hsrc
    have hidle' : s.src.state ≠ .idle := hidle
    refine h.keep hsmooth hsized (fun x hx => ?_) ?_ ?_ ?_ ?_ hheard fun hs => ?_
    · rw [hnow]
      have hsame : t.flight = s.flight := by
        rw [hsmooth.inLine.flight_eq, h.smooth.inLine.flight_eq, hheard, hsrc]
        rfl
      rw [hsame] at hx
      exact hlate x hx
    · rw [hsrc]
      rfl
    · rw [hsrc]
      rfl
    · rw [hsrc]
      rfl
    · rw [hsrc]
      rfl
    · rw [hsrc] at hs
      exact absurd hs hidle'

theorem doubling_step {a : Act} (hplain : cfg.enableDctcp = false) (hR : R < minRto)
    (hsmall : flowsize + 3 * MSS_BYTES < 2 ^ 31) (h : Doubling cfg flowsize startTime R s)
    (hprompt : s.Prompt R a) (hstep : (system (tcpEndhost cfg)).step s a = some t) :
    Doubling cfg flowsize startTime R t := by
  have hsmooth : Smooth t := smooth_step hR h.smooth hprompt hstep
  have hsized : SizedInv (tcpEndhost cfg) flowsize t := sizedInv_step s a t h.sized hstep
  have hans := h.smooth.inLine.answered
  cases promptStep hprompt hstep with
  | event hmin hnow hlate hnext => exact doubling_event hR h hmin hlate hnext rfl hsmooth hsized
  | @deleted time hnow hlate hfin =>
    refine h.keep hsmooth hsized hlate rfl rfl rfl rfl rfl fun hs => ?_
    have hidle : s.src.state = .idle := hs
    rw [hfin] at hidle
    cases hidle
  | advance hnow hnext hlate =>
    refine h.keep hsmooth hsized hlate rfl rfl rfl rfl rfl fun hs => ⟨rfl, ?_⟩
    obtain ⟨-, hpending, -⟩ := h.idle hs
    refine hnext startTime ?_
    rw [hpending]
    exact List.mem_singleton_self _
  | @data p rest hdata =>
    have hheard : heard
        { s with
          data := rest
          sink := (TcpSink.receivePacket p s.sink).1
          acks := s.acks ++ [(TcpSink.receivePacket p s.sink).2]
          rcvd := s.rcvd ++ [p] } = s.heard := by
      rw [heard, heard, List.length_append, List.length_append, List.length_singleton,
        List.length_singleton]
      omega
    refine h.keep hsmooth hsized (fun x hx => ?_) rfl rfl rfl rfl hheard fun hs =>
      ⟨rfl, (h.idle hs).2.2⟩
    rw [hsmooth.inLine.flight_eq, hheard] at hx
    refine h.recent x ?_
    rw [h.smooth.inLine.flight_eq]
    exact hx
  | ack hacks => exact doubling_ack hplain hsmall h hacks rfl hsmooth hsized
  | mark hp =>
    refine h.keep hsmooth hsized (fun x hx => ?_) rfl rfl rfl rfl rfl fun hs =>
      ⟨rfl, (h.idle hs).2.2⟩
    rw [hsmooth.inLine.flight_eq] at hx
    refine h.recent x ?_
    rw [h.smooth.inLine.flight_eq]
    exact hx

/-! ## How long a flow takes -/

/-- A flow of `flowsize` bytes is in time: when `j` segments are acked, `2 * j + 2` of them are
    sent, or all; a finished one has all of them at the sink; and one that is not finished is not
    older than `log 2 (n + 1)` round trips, where `n` is the number of its segments. -/
structure FinishesInTime (flowsize startTime R : Nat) (s : Flow (TcpSrc D) TcpSink) : Prop where
  doubles : s.src.state = .slowStart →
    s.src.sent.length = min (segmentCount flowsize) (2 * s.heard + 2)
  delivered : s.src.state = .finish → s.rcvd.length = segmentCount flowsize ∧ s.data = []
  in_time : s.src.state = .finish ∨
    s.now ≤ startTime + Nat.log 2 (segmentCount flowsize + 1) * R

theorem finishesInTime_of_doubling (h : Doubling cfg flowsize startTime R s) :
    FinishesInTime flowsize startTime R s := by
  have hlen := h.smooth.inLine.length
  have hle := sent_le h.smooth.inLine h.sized
  refine ⟨fun hs => ?_, fun hfin => ?_, ?_⟩
  · have hidle : s.src.state ≠ .idle := by
      rw [hs]
      exact fun h => by cases h
    have hfin : s.src.state ≠ .finish := by
      rw [hs]
      exact fun h => by cases h
    exact (h.running hidle hfin).2.2
  · -- the sink has acked the whole flow
    have hall := h.sized.finished (decide_eq_true hfin)
    have hsink : ((tcpEndhost cfg).dataSink s.sink).cumulativeAck = s.rcvd.length * MSS_BYTES :=
      congrArg DataSink.cumulativeAck h.smooth.inLine.sink
    rw [hsink, ← segmentCount_le_iff] at hall
    have hnone : s.data.length = 0 := by omega
    exact ⟨by omega, List.eq_nil_of_length_eq_zero hnone⟩
  · by_cases hfin : s.src.state = .finish
    · exact Or.inl hfin
    · right
      by_cases hidle : s.src.state = .idle
      · exact (h.idle hidle).2.2.trans (Nat.le_add_right _ _)
      · -- the first segment that is not acked is in flight
        obtain ⟨hcount, hlt⟩ := h.heard_lt hidle hfin
        have hmem : s.src.sent[s.heard].pkt.ts ∈ s.flight := by
          rw [h.smooth.inLine.flight_eq, List.drop_eq_getElem_cons hlt]
          exact List.mem_cons_self
        have hrecent := h.recent _ hmem
        have hsent := h.sentBy _ _ (List.getElem?_eq_getElem hlt)
        have hmul := Nat.mul_le_mul_right R (roundOf_succ_le_log hcount)
        rw [Nat.succ_mul] at hmul
        omega

/-- In every prompt run without DCTCP, of every flow that is not too large. -/
theorem slowStart_finishes (cfg : TcpConfig D) (hplain : cfg.enableDctcp = false)
    (hR : R < minRto) (hsize : 0 < flowsize) (hsmall : flowsize + 3 * MSS_BYTES < 2 ^ 31)
    {endtime : Nat} (hstart : endtime = 0 ∨ startTime ≤ endtime) {as : List Act}
    (hprompt : (system (tcpEndhost cfg)).Along (Prompt R)
      (init (tcpEndhost cfg) flowsize 0 startTime endtime) as) :
    (system (tcpEndhost cfg)).Always (FinishesInTime flowsize startTime R)
      (init (tcpEndhost cfg) flowsize 0 startTime endtime) as :=
  Lts.always_of_along (I := Doubling cfg flowsize startTime R)
    (fun _ _ _ h hp hstep => doubling_step hplain hR hsmall h hp hstep)
    (fun _ h => finishesInTime_of_doubling h) (doubling_init hsize hstart) hprompt

/-- Four segments take two round trips at most. -/
theorem slowStart_finishes_fourSegments :
    Nat.log 2 (segmentCount 6000 + 1) = 2 ∧
      (system (tcpEndhost plainTcp)).Always (FinishesInTime 6000 0 150000000)
        (init (tcpEndhost plainTcp) 6000 0 0 0) fourSegments :=
  ⟨by decide +kernel, slowStart_finishes plainTcp rfl (by decide) (by decide) (by decide)
    (Or.inl rfl) prompt_fourSegments⟩

end Flow
end Htsim
end DatacenterNetworking
