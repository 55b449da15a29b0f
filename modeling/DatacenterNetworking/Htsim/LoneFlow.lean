/-
  DatacenterNetworking.Htsim.LoneFlow

  A TCP flow that has its network to itself, and whose segments fit into every queue of its
  routes all together.  The network then does what `Flow.Prompt` asks of one: no queue drops
  a packet, and an ack is back within the time that the queues take to send the whole flow
  and the pipes delay it (`roundTrip`).

  So the source, over queues and pipes, sends each segment once and is finished within
  `log 2 (n + 1)` such times (`lone_finishes`), if these and `_rto` end before `2 ^ 64`.
-/

import DatacenterNetworking.Htsim.AckOrder
import DatacenterNetworking.Htsim.NetworkLoad
import DatacenterNetworking.Htsim.SlowStart

namespace DatacenterNetworking
namespace Htsim

/-! ## What a source sends -/

namespace DataSource

/-- What was sent from `b` to `b'` are segments made at `now`. -/
def Stamps (now : Nat) (b b' : DataSource) : Prop :=
  ∃ new, b'.sent = b.sent ++ new ∧ ∀ e ∈ new, e.pkt.ts = now ∧ e.pkt.size = MSS_BYTES

variable {now : Nat} {b b' b'' : DataSource}

theorem Stamps.same (h : b'.sent = b.sent) : Stamps now b b' :=
  ⟨[], h.trans (List.append_nil _).symm, fun _ he => absurd he List.not_mem_nil⟩

theorem Stamps.trans (h : Stamps now b b') (h' : Stamps now b' b'') : Stamps now b b'' := by
  obtain ⟨new, hnew, hall⟩ := h
  obtain ⟨more, hmore, hall'⟩ := h'
  refine ⟨new ++ more, by rw [hmore, hnew, List.append_assoc], fun e he => ?_⟩
  rcases List.mem_append.mp he with he | he
  · exact hall e he
  · exact hall' e he

theorem Stamps.sendOn (h : Stamps now b b') {seqno : Nat}
    (hsent : b''.sent = (b'.sendOn (DataPacket.newpkt seqno now)).sent) : Stamps now b b'' :=
  h.trans ⟨[⟨DataPacket.newpkt seqno now, b'.lastAcked⟩], hsent, fun e he => by
    rw [List.mem_singleton.mp he]
    exact ⟨rfl, rfl⟩⟩

/-- What is new of it. -/
theorem Stamps.drop (h : Stamps now b b') : b'.sent = b.sent ++ b'.sent.drop b.sent.length ∧
    ∀ e ∈ b'.sent.drop b.sent.length, e.pkt.ts = now ∧ e.pkt.size = MSS_BYTES := by
  obtain ⟨new, hnew, hall⟩ := h
  rw [hnew, List.drop_left]
  exact ⟨rfl, hall⟩

end DataSource

namespace TcpSrc

open DataSource (Stamps)

variable {D : Type} {cfg : TcpConfig D} {now : Nat} {b : DataSource}

theorem sendLoop_stamps (fuel : Nat) {s : TcpSrc D} (h : Stamps now b s.toDataSource) :
    Stamps now b (sendLoop now fuel s).toDataSource := by
  induction fuel generalizing s with
  | zero => exact h
  | succ fuel ih =>
    have hsend : Stamps now b (sendNext now s).toDataSource := by
      rw [sendNext_source]
      exact h.sendOn rfl
    simp only [sendLoop]
    split_ifs
    · exact hsend
    · exact ih hsend
    · exact h

theorem sendPackets_stamps {s : TcpSrc D} (h : Stamps now b s.toDataSource) :
    Stamps now b (sendPackets now s).toDataSource := by
  simp only [sendPackets]
  split_ifs
  · exact h
  · exact sendLoop_stamps _ h

theorem retransmitPacket_stamps {s : TcpSrc D} (h : Stamps now b s.toDataSource) :
    Stamps now b (retransmitPacket now s).toDataSource := by
  rw [retransmitPacket_source]
  exact h.sendOn rfl

theorem scheduleCheck_stamps {s : TcpSrc D} (h : Stamps now b s.toDataSource) :
    Stamps now b (scheduleCheck now s).toDataSource := by
  obtain ⟨times, htimes⟩ := scheduleCheck_eq now s
  rw [htimes]
  exact h.trans (Stamps.same rfl)

/-- In an event. -/
theorem doNextEvent_stamps {nPackets : Nat} {s t : TcpSrc D}
    (h : doNextEvent now nPackets s = some t) : Stamps now s.toDataSource t.toDataSource := by
  cases nextEvent h with
  | start => exact scheduleCheck_stamps (sendPackets_stamps (Stamps.same rfl))
  | expire => exact scheduleCheck_stamps (retransmitPacket_stamps (Stamps.same rfl))
  | check => exact scheduleCheck_stamps (Stamps.same rfl)

theorem newAck_stamps (ackno : Nat) (s : TcpSrc D) :
    Stamps now s.toDataSource (newAck now ackno s).toDataSource := by
  simp only [newAck]
  split_ifs
  · apply sendPackets_stamps
    rw [inflateWindow_source]
    exact Stamps.same rfl
  · exact sendPackets_stamps (Stamps.same rfl)
  · exact sendPackets_stamps (retransmitPacket_stamps (Stamps.same rfl))

theorem dupAck_stamps (s : TcpSrc D) :
    Stamps now s.toDataSource (dupAck now s).toDataSource := by
  simp only [dupAck]
  split_ifs
  · exact sendPackets_stamps (Stamps.same rfl)
  · exact sendPackets_stamps (Stamps.same rfl)
  · exact Stamps.same rfl
  · exact retransmitPacket_stamps (Stamps.same rfl)

/-- When an ack arrives. -/
theorem receivePacket_stamps (a : DataAck) (s : TcpSrc D) :
    Stamps now s.toDataSource (receivePacket cfg now a s).toDataSource := by
  have hsame : (updateDctcp cfg a.ecnRev (updateRtt now a.ts s)).toDataSource =
      s.toDataSource := by rw [updateDctcp_source, updateRtt_source]
  simp only [receivePacket, processAck]
  split_ifs
  · exact Stamps.same rfl
  · exact Stamps.same rfl
  · exact Stamps.same rfl
  · rw [← hsame]
    exact newAck_stamps _ _
  · rw [← hsame]
    exact dupAck_stamps _

end TcpSrc

namespace Connection

variable {T : Topology}

/-! ## The load of the flow -/

/-- The bytes that a flow of `flowsize` bytes offers to element `i`, when each segment is sent once
    and acked once. -/
def load (C : Connection T) (flowsize i : Nat) : Nat :=
  (if i ∈ C.routeFwd.hops then segmentCount flowsize * MSS_BYTES else 0) +
    if i ∈ C.routeRev.hops then segmentCount flowsize * ACK_SIZE else 0

/-- Every queue has room for all of it. -/
def Fits (C : Connection T) (flowsize : Nat) : Prop :=
  ∀ i cfg, T.kind i = .queue cfg → C.load flowsize i ≤ cfg.maxsize

/-- How long a packet may be on its way to the sink. -/
def forth (C : Connection T) (flowsize : Nat) : Nat :=
  Network.longestOver (Network.stayAt T (C.load flowsize)) C.routeFwd.hops

/-- How long an ack may be on its way back to the source. -/
def back (C : Connection T) (flowsize : Nat) : Nat :=
  Network.longestOver (Network.stayAt T (C.load flowsize)) C.routeRev.hops

/-- The round trip of a segment, when all the others of the flow are in front of each queue. -/
def roundTrip (C : Connection T) (flowsize : Nat) : Nat := C.forth flowsize + C.back flowsize

variable {D : Type} {C : Connection T} {cfg : TcpConfig D} {flowsize startTime : Nat}

/-- The flow of `f` has made all packets of the network, as many as it may: a data packet when the
    source sent it, an ack when the sink got its data packet. -/
structure Books (C : Connection T) (flowsize : Nat) (s : State (TcpSrc D) TcpSink T)
    (f : Flow (TcpSrc D) TcpSink) : Prop where
  sent : s.data.map Prod.fst = s.src.sent.map Sent.pkt
  answered : s.acks.length = f.rcvd.length
  all : (s.data.map Prod.snd ++ s.acks.map Prod.snd).Perm (List.range s.net.sent.length)
  data : ∀ e ∈ s.data, s.net.origin e.2 = some ⟨C.routeFwd.hops, MSS_BYTES, e.1.ts⟩
  acks : ∀ e ∈ s.acks, ∃ time, s.net.origin e.2 = some ⟨C.routeRev.hops, ACK_SIZE, time⟩ ∧
    time ≤ e.1.ts + C.forth flowsize

theorem books_init (C : Connection T) (cfg : TcpConfig D) (flowsize : Nat) (startTime : UInt64) :
    Books C flowsize (C.init (tcpEndhost cfg) flowsize 0 startTime)
      (Flow.init (tcpEndhost cfg) flowsize 0 startTime.toNat 0) where
  sent := by
    have hsent : (C.init (tcpEndhost cfg) flowsize 0 startTime).src.sent = [] :=
      (DataSource.new_spec flowsize 0 startTime.toNat 0).2.2.2.2.1
    rw [hsent]
    rfl
  answered := rfl
  all := List.Perm.refl _
  data := fun e he => absurd he List.not_mem_nil
  acks := fun e he => absurd he List.not_mem_nil

variable {s : State (TcpSrc D) TcpSink T} {f : Flow (TcpSrc D) TcpSink}

/-- The load is no more than it may be. -/
theorem Books.within (h : Books C flowsize s f) (hsrc : f.src = s.src) (hin : f.InLine)
    (hsized : Flow.SizedInv (tcpEndhost cfg) flowsize f) :
    Network.Within (C.load flowsize) s.net := by
  intro i
  have hdata : s.data.length ≤ segmentCount flowsize := by
    have hle := Flow.sent_le hin hsized
    have hlen := congrArg List.length h.sent
    rw [List.length_map, List.length_map] at hlen
    rw [hlen, ← hsrc]
    exact hle
  have hacks : s.acks.length ≤ segmentCount flowsize := by
    have hle := Flow.sent_le hin hsized
    have hlen := hin.length
    rw [h.answered]
    omega
  have hfwd : ((s.data.map Prod.snd).map (s.net.sizeOver i)).sum =
      s.data.length * if i ∈ C.routeFwd.hops then MSS_BYTES else 0 := by
    rw [List.map_map, List.map_congr_left
      (g := fun _ => if i ∈ C.routeFwd.hops then MSS_BYTES else 0) fun e he => ?_]
    · rw [List.map_const', List.sum_replicate_nat]
    · simp only [Function.comp_apply, Network.sizeOver, h.data e he, Option.map_some,
        Option.getD_some]
  have hrev : ((s.acks.map Prod.snd).map (s.net.sizeOver i)).sum =
      s.acks.length * if i ∈ C.routeRev.hops then ACK_SIZE else 0 := by
    rw [List.map_map, List.map_congr_left
      (g := fun _ => if i ∈ C.routeRev.hops then ACK_SIZE else 0) fun e he => ?_]
    · rw [List.map_const', List.sum_replicate_nat]
    · obtain ⟨time, horigin, -⟩ := h.acks e he
      simp only [Function.comp_apply, Network.sizeOver, horigin, Option.map_some,
        Option.getD_some]
  have hoffered : s.net.offered i = s.data.length * (if i ∈ C.routeFwd.hops then MSS_BYTES else 0) +
      s.acks.length * if i ∈ C.routeRev.hops then ACK_SIZE else 0 := by
    rw [Network.offered, ← (h.all.map (s.net.sizeOver i)).sum_nat, List.map_append,
      List.sum_append, hfwd, hrev]
  rw [hoffered, load]
  refine Nat.add_le_add ?_ ?_
  · rw [← mul_ite_zero]
    exact Nat.mul_le_mul_right _ hdata
  · rw [← mul_ite_zero]
    exact Nat.mul_le_mul_right _ hacks

/-! ## What is in flight -/

section Flying

variable {α : Type} {made : List (α × Nat)} {net net' : Network T}

/-- When no packet takes off or arrives, the same packets are in flight. -/
theorem flying_same (h : ∀ e ∈ made, net'.inFlight e.2 = net.inFlight e.2) :
    State.flying net' made = State.flying net made := by
  rw [State.flying, State.flying, List.filter_congr h]

/-- Packets that are new and in flight come behind those in flight. -/
theorem flying_all {new : List α} {len : Nat}
    (h : ∀ k < new.length, net'.inFlight (len + k) = true) :
    State.flying net' (new.zipIdx len) = new := by
  rw [State.flying, List.filter_eq_self.mpr fun e he => ?_, List.zipIdx_map_fst]
  obtain ⟨hle, hlt, -⟩ := List.mem_zipIdx (x := e.1) (i := e.2) he
  obtain ⟨k, hk⟩ := Nat.exists_eq_add_of_le hle
  rw [hk]
  exact h k (by omega)

/-- One arrives, before which none is left. -/
theorem flying_cons {p : α} {n : Nat} (horder : (made.map Prod.snd).Pairwise (· < ·))
    (hp : (p, n) ∈ made) (hn : net.inFlight n = true) (hgone : net'.inFlight n = false)
    (hstay : ∀ e ∈ made, e.2 ≠ n → net'.inFlight e.2 = net.inFlight e.2)
    (hfirst : ∀ e ∈ made, net'.inFlight e.2 = true → n < e.2) :
    State.flying net made = p :: State.flying net' made := by
  obtain ⟨before, after, rfl⟩ := List.append_of_mem hp
  rw [List.map_append, List.map_cons] at horder
  have hlow : ∀ e ∈ before, e.2 < n := fun e he =>
    (List.pairwise_append.mp horder).2.2 e.2 (List.mem_map_of_mem he) n List.mem_cons_self
  have hhigh : ∀ e ∈ after, n < e.2 := fun e he =>
    (List.pairwise_cons.mp (List.pairwise_append.mp horder).2.1).1 e.2 (List.mem_map_of_mem he)
  have hnone : ∀ e ∈ before, net'.inFlight e.2 = false := by
    intro e he
    have hlt := hlow e he
    by_contra hin
    have hgt := hfirst e (List.mem_append_left _ he) (by simpa using hin)
    omega
  have hbefore : State.flying net before = [] := flying_eq_nil fun e he => by
    rw [← hstay e (List.mem_append_left _ he) (hlow e he).ne]
    exact hnone e he
  have hafter : State.flying net' after = State.flying net after := flying_same fun e he =>
    hstay e (List.mem_append_right _ (List.mem_cons_of_mem _ he)) (hhigh e he).ne'
  have hone : State.flying net [(p, n)] = [p] := by simp [State.flying, hn]
  have hone' : State.flying net' [(p, n)] = [] := by simp [State.flying, hgone]
  rw [List.append_cons, flying_append, flying_append, flying_append, flying_append, hbefore, hone,
    flying_eq_nil hnone, hone', hafter]
  rfl

/-- The first of those in flight. -/
theorem flying_head {p : α} {n : Nat} (horder : (made.map Prod.snd).Pairwise (· < ·))
    (hp : (p, n) ∈ made) (hn : net.inFlight n = true)
    (hfirst : ∀ e ∈ made, net.inFlight e.2 = true → n ≤ e.2) :
    ∃ rest, State.flying net made = p :: rest := by
  obtain ⟨before, after, rfl⟩ := List.append_of_mem hp
  rw [List.map_append, List.map_cons] at horder
  have hnone : ∀ e ∈ before, net.inFlight e.2 = false := by
    intro e he
    have hlt := (List.pairwise_append.mp horder).2.2 e.2 (List.mem_map_of_mem he) n
      List.mem_cons_self
    by_contra hin
    have hle := hfirst e (List.mem_append_left _ he) (by simpa using hin)
    omega
  refine ⟨State.flying net after, ?_⟩
  have hone : State.flying net [(p, n)] = [p] := by simp [State.flying, hn]
  rw [List.append_cons, flying_append, flying_append, flying_eq_nil hnone, hone]
  rfl

end Flying

/-! ## The books after a dispatch -/

theorem origin_lt {net : Network T} {n : Nat} {o : Network.Origin} (h : net.origin n = some o) :
    n < net.sent.length := by
  obtain ⟨e, he, -⟩ := Option.map_eq_some_iff.mp h
  exact (List.getElem?_eq_some_iff.mp he).1

/-- New packets are entered. -/
theorem Books.grow {t : State (TcpSrc D) TcpSink T} {f' : Flow (TcpSrc D) TcpSink}
    (h : Books C flowsize s f) (pkts : List DataPacket) (new : List DataAck)
    (hlater : Network.Later s.net t.net)
    (hlen : t.net.sent.length = s.net.sent.length + pkts.length + new.length)
    (hsent : t.src.sent.map Sent.pkt = s.src.sent.map Sent.pkt ++ pkts)
    (hanswered : f'.rcvd.length = f.rcvd.length + new.length)
    (hdata : t.data = s.data ++ pkts.zipIdx s.net.sent.length)
    (hacks : t.acks = s.acks ++ new.zipIdx (s.net.sent.length + pkts.length))
    (hnewData : ∀ k p, pkts[k]? = some p →
      t.net.origin (s.net.sent.length + k) = some ⟨C.routeFwd.hops, MSS_BYTES, p.ts⟩)
    (hnewAcks : ∀ k a, new[k]? = some a → ∃ time,
      t.net.origin (s.net.sent.length + pkts.length + k) =
        some ⟨C.routeRev.hops, ACK_SIZE, time⟩ ∧ time ≤ a.ts + C.forth flowsize) :
    Books C flowsize t f' where
  sent := by rw [hdata, List.map_append, List.zipIdx_map_fst, h.sent, hsent]
  answered := by rw [hacks, List.length_append, List.length_zipIdx, h.answered, hanswered]
  all := by
    -- the new numbers are the next ones
    have hrange : List.range t.net.sent.length = List.range s.net.sent.length ++
        (List.range' s.net.sent.length pkts.length ++
          List.range' (s.net.sent.length + pkts.length) new.length) := by
      have hall := List.range'_append_1 (s := 0) (m := s.net.sent.length)
        (n := pkts.length + new.length)
      rw [Nat.zero_add, ← Nat.add_assoc, ← hlen] at hall
      rw [List.range'_append_1, List.range_eq_range', List.range_eq_range', hall]
    rw [hrange, hdata, hacks, List.map_append, List.map_append, List.zipIdx_map_snd,
      List.zipIdx_map_snd]
    refine List.Perm.trans ?_ (h.all.append_right _)
    rw [List.append_assoc, List.append_assoc]
    refine (List.perm_append_left_iff _).mpr ?_
    rw [← List.append_assoc, ← List.append_assoc]
    exact List.perm_append_comm.append_right _
  data := fun ⟨p, n⟩ he => by
    rw [hdata] at he
    rcases List.mem_append.mp he with hold | hnew
    · have horigin := h.data _ hold
      rw [hlater.origin n (origin_lt horigin)]
      exact horigin
    · obtain ⟨hle, hget⟩ := List.mk_mem_zipIdx_iff_le_and_getElem?_sub.mp hnew
      have horigin := hnewData _ _ hget
      rwa [Nat.add_sub_of_le hle] at horigin
  acks := fun ⟨a, n⟩ he => by
    rw [hacks] at he
    rcases List.mem_append.mp he with hold | hnew
    · obtain ⟨time, horigin, htime⟩ := h.acks _ hold
      refine ⟨time, ?_, htime⟩
      rw [hlater.origin n (origin_lt horigin)]
      exact horigin
    · obtain ⟨hle, hget⟩ := List.mk_mem_zipIdx_iff_le_and_getElem?_sub.mp hnew
      obtain ⟨time, horigin, htime⟩ := hnewAcks _ _ hget
      rw [Nat.add_sub_of_le hle] at horigin
      exact ⟨time, horigin, htime⟩

section Dispatch

variable {i : Nat} {l : EventList Nat} {net : Network T}

/-- In a dispatch in which the source hands on what it has sent. -/
theorem Books.handOn {src : TcpSrc D} {r : State (TcpSrc D) TcpSink T × List (Network.HostAct T)}
    (h : Books C flowsize s f) (s₀ : State (TcpSrc D) TcpSink T)
    (f' : Flow (TcpSrc D) TcpSink) (hnext : s.net.list.next = .event i l) (hnet : s₀.net = s.net)
    (hdata : s₀.data = s.data) (hacks : s₀.acks = s.acks) (hsent : s₀.src.sent = s.src.sent)
    (hstamps : DataSource.Stamps l.now s₀.src.toDataSource src.toDataSource)
    (hr : C.handOn (tcpEndhost cfg) s₀ src = some r)
    (hstep : s.net.step (.dispatch (r.2 ++ [])) = some net) (hrcvd : f'.rcvd = f.rcvd) :
    Books C flowsize { r.1 with net := net } f' ∧
      ∀ k < ((src.sent.drop s₀.src.sent.length).map Sent.pkt).length,
        net.Underway (s.net.sent.length + k) := by
  obtain ⟨pkts, times, hpkts, -, -, rfl⟩ := handOn_spec hr
  obtain ⟨hgrown, hnew⟩ := hstamps.drop
  rw [List.append_nil] at hstep
  have hstep' : s.net.step (.dispatch (((pkts.map DataPacket.size).map fun size =>
      .send C.routeFwd C.flow size) ++
      (times.map UInt64.ofNat).map fun time => .timer C.src time)) = some net := by
    have htimers : (times.map UInt64.ofNat).map (fun time => .timer C.src time) =
        times.map fun time => (.timer C.src (UInt64.ofNat time) : Network.HostAct T) :=
      List.map_map
    rw [htimers]
    exact hstep
  have hlen := Network.length_dispatch hstep'
  rw [List.length_map] at hlen
  have hsizes : ∀ (k : Nat) (p : DataPacket), pkts[k]? = some p →
      p.ts = l.now ∧ p.size = MSS_BYTES := by
    intro k p hp
    rw [hpkts] at hp
    obtain ⟨e, he, rfl⟩ := List.mem_map.mp (List.mem_of_getElem? hp)
    exact hnew e he
  refine ⟨h.grow pkts [] (Network.later_step hstep) hlen ?_ ?_ ?_ ?_
    (fun k p hp => ?_) fun k a ha => (by cases ha), ?_⟩
  · show src.sent.map Sent.pkt = _
    rw [hgrown, List.map_append, ← hsent, hpkts]
    rfl
  · rw [hrcvd]
    rfl
  · show s₀.data ++ pkts.zipIdx s₀.net.sent.length = _
    rw [hdata, hnet]
  · show s₀.acks = _
    rw [hacks, List.zipIdx_nil, List.append_nil]
  · obtain ⟨hts, hsize⟩ := hsizes k p hp
    have horigin := Network.origin_dispatch hnext hstep k p.size (by
      rw [List.getElem?_map, hp, Option.map_some])
    rw [hsize] at horigin
    rw [hts]
    exact horigin
  · have hway := Network.underway_new hstep
    rw [List.length_map] at hway
    rw [show (src.sent.drop s₀.src.sent.length).map Sent.pkt = pkts from hpkts.symm]
    exact hway

end Dispatch

/-! ## The invariant -/

/-- What is asked of the network and of the flow: the queues have room for all its packets, a round
    trip takes less than `MIN_RTO_US` even so, and no window wraps. -/
structure Suits (C : Connection T) (cfg : TcpConfig D) (flowsize : Nat) : Prop where
  plain : cfg.enableDctcp = false
  fits : C.Fits flowsize
  quick : C.roundTrip flowsize < minRto
  pos : 0 < flowsize
  small : flowsize + 3 * MSS_BYTES < 2 ^ 31

/-- The connection and the abstract flow, which is over a prompt network. -/
structure Alone (C : Connection T) (cfg : TcpConfig D) (flowsize startTime : Nat)
    (s : State (TcpSrc D) TcpSink T) (f : Flow (TcpSrc D) TcpSink) : Prop where
  ok : Ok C (tcpEndhost cfg) s
  refines : Refines s f
  doubling : Flow.Doubling cfg flowsize startTime (C.roundTrip flowsize) f
  books : Books C flowsize s f

theorem alone_init (hs : C.Suits cfg flowsize) (time : UInt64) :
    Alone C cfg flowsize time.toNat (C.init (tcpEndhost cfg) flowsize 0 time)
      (Flow.init (tcpEndhost cfg) flowsize 0 time.toNat 0) where
  ok := ok_init C (tcpEndhost cfg) flowsize 0 time
  refines := refines_init C (tcpEndhost cfg) flowsize 0 time
  doubling := Flow.doubling_init hs.pos (Or.inl rfl)
  books := books_init C cfg flowsize time

/-- No queue has dropped anything. -/
theorem Books.lossless (hs : C.Suits cfg flowsize) (h : Books C flowsize s f)
    (hok : Ok C (tcpEndhost cfg) s) (hsrc : f.src = s.src)
    (hdoubling : Flow.Doubling cfg flowsize startTime (C.roundTrip flowsize) f) (i : Nat) :
    s.net.lostAt i = [] :=
  Network.no_loss hok.net fun q hq =>
    (h.within hsrc hdoubling.smooth.inLine hdoubling.sized i).trans (hs.fits i q hq)

section Step

variable {i : Nat} {l : EventList Nat} {net : Network T}

/-- A packet in flight is due by the time it may take. -/
theorem Alone.due (h : Alone C cfg flowsize startTime s f) (hnext : s.net.list.next = .event i l)
    {n : Nat} {o : Network.Origin} (horigin : s.net.origin n = some o)
    (hin : s.net.inFlight n = true) :
    l.now ≤ o.time + Network.longestOver (Network.stayAt T (C.load flowsize)) o.hops := by
  have hwithin := h.books.within h.refines.src h.doubling.smooth.inLine h.doubling.sized
  obtain ⟨j, hj, hn⟩ := (Network.inFlight_iff (Network.inPlace_reachable h.ok.net)).mp hin
  obtain ⟨p, hp, rfl⟩ := List.mem_map.mp hn
  obtain ⟨e, he, hle⟩ := (Network.inTime_of_loads h.ok.net hwithin).next_le hnext
    (Network.timely_of_loads h.ok.net hwithin hj) hp
  rw [Network.origin_of_sent he] at horigin
  cases horigin
  exact hle

theorem Alone.due_data (h : Alone C cfg flowsize startTime s f)
    (hnext : s.net.list.next = .event i l) {e : DataPacket × Nat} (he : e ∈ s.data)
    (hin : s.net.inFlight e.2 = true) : l.now ≤ e.1.ts + C.forth flowsize :=
  h.due hnext (h.books.data e he) hin

/-- The network is prompt. -/
theorem Alone.prompt (h : Alone C cfg flowsize startTime s f) (halive : s.alive = true)
    (hnext : s.net.list.next = .event i l) :
    ∀ x ∈ f.flight, l.now ≤ x + C.roundTrip flowsize := by
  intro x hx
  rw [Flow.flight, h.refines.data halive, h.refines.acks halive] at hx
  rcases List.mem_append.mp hx with hx | hx
  · obtain ⟨a, ha, rfl⟩ := List.mem_map.mp hx
    obtain ⟨e, he, rfl⟩ := List.mem_map.mp ha
    obtain ⟨hmem, hin⟩ := List.mem_filter.mp he
    obtain ⟨time, horigin, htime⟩ := h.books.acks e hmem
    have hdue : l.now ≤ time + C.back flowsize := h.due hnext horigin hin
    rw [roundTrip]
    omega
  · obtain ⟨p, hp, rfl⟩ := List.mem_map.mp hx
    obtain ⟨e, he, rfl⟩ := List.mem_map.mp hp
    obtain ⟨hmem, hin⟩ := List.mem_filter.mp he
    have hdue := h.due_data hnext hmem hin
    rw [roundTrip]
    omega

/-- A step of the abstract flow, which the prompt network allows. -/
theorem Alone.flow (hs : C.Suits cfg flowsize) {g g' : Flow (TcpSrc D) TcpSink}
    {a : Flow.Act} (h : Flow.Doubling cfg flowsize startTime (C.roundTrip flowsize) g)
    (hprompt : g.Prompt (C.roundTrip flowsize) a)
    (hstep : (Flow.system (tcpEndhost cfg)).step g a = some g') :
    Flow.Doubling cfg flowsize startTime (C.roundTrip flowsize) g' :=
  Flow.doubling_step hs.plain hs.quick hs.small h hprompt hstep

/-- Time goes on to the next event. -/
theorem Alone.advance (hs : C.Suits cfg flowsize) (h : Alone C cfg flowsize startTime s f)
    (halive : s.alive = true) (hnext : s.net.list.next = .event i l) :
    Flow.Doubling cfg flowsize startTime (C.roundTrip flowsize) { f with now := l.now } := by
  obtain ⟨hle, hpending, -⟩ := h.ok.next hnext
  refine Alone.flow (a := .advance l.now) hs h.doubling (h.prompt halive hnext)
    (Flow.step_advance (h.refines.alive.trans halive) ?_ ?_)
  · rw [h.refines.now]
    exact hle
  · rw [h.refines.src]
    exact hpending

/-- When it is an event of the source, it is so in the abstract flow. -/
theorem Alone.first (h : Alone C cfg flowsize startTime s f)
    (hnext : s.net.list.next = .event i l) (hi : i = C.src) :
    f.now ≤ l.now ∧ ((tcpEndhost cfg).source f.src).pending.min? = some l.now := by
  obtain ⟨hle, -, hmin⟩ := h.ok.next hnext
  rw [h.refines.now, h.refines.src]
  exact ⟨hle, hmin hi⟩

theorem Alone.popEvent (h : Alone C cfg flowsize startTime s f) (time : Nat) :
    (f.popEvent (tcpEndhost cfg) time).src = (s.popEvent (tcpEndhost cfg) time).src := by
  simp only [Flow.popEvent, State.popEvent, h.refines.src]

theorem Alone.prompt_event (h : Alone C cfg flowsize startTime s f) (halive : s.alive = true)
    (hnext : s.net.list.next = .event i l) (hi : i = C.src) :
    f.Prompt (C.roundTrip flowsize) .event := by
  intro time htime
  rw [show f.src.pending.min? = some l.now from (h.first hnext hi).2] at htime
  cases htime
  exact h.prompt halive hnext

/-- What does not arrive stays in flight, when nothing is dropped. -/
theorem Ok.stays (h : Ok C (tcpEndhost cfg) s) {acts : List (Network.HostAct T)}
    (hstep : s.net.step (.dispatch acts) = some net) (hnext : s.net.list.next = .event i l)
    (hnone : ∀ j, net.lostAt j = []) {n : Nat} {hops : List Nat}
    (hn : s.net.hopsOf n = some hops)
    (harrive : ∀ j pkt, s.net.arrival i = some (j, pkt) → pkt.id ≠ n) :
    net.inFlight n = s.net.inFlight n := by
  have hplace := Network.inPlace_reachable h.net
  have hplace' : Network.InPlace none net := Network.inPlace_step hplace hstep
  refine Bool.eq_iff_iff.mpr ⟨inFlight_later hplace hplace' (Network.later_step hstep) hn,
    fun hin => ?_⟩
  have hfly := (Network.inFlight_iff hplace).mp hin
  exact (Network.inFlight_iff hplace').mpr
    ((Network.underway_dispatch hstep hnext (Or.inl hfly) harrive).flying hnone)

/-- New packets are in flight. -/
theorem Ok.starts (h : Ok C (tcpEndhost cfg) s) {acts : List (Network.HostAct T)}
    (hstep : s.net.step (.dispatch acts) = some net) (hnone : ∀ j, net.lostAt j = []) {n : Nat}
    (hn : net.Underway n) : net.inFlight n = true :=
  (Network.inFlight_iff (Network.inPlace_step (Network.inPlace_reachable h.net) hstep)).mpr
    (hn.flying hnone)

/-- An event of the source brings no packet. -/
theorem no_arrival_src (C : Connection T) {u : Network T} {j : Nat} {pkt : Packet} :
    u.arrival C.src ≠ some (j, pkt) :=
  fun ha => Kind.not_host_of_sends (Network.arrival_spec ha).1 C.host_src

/-- The data packets and the acks have different numbers. -/
theorem Books.disjoint (h : Books C flowsize s f) {e : DataPacket × Nat} {e' : DataAck × Nat}
    (he : e ∈ s.data) (he' : e' ∈ s.acks) : e.2 ≠ e'.2 := by
  have hnodup : (s.data.map Prod.snd ++ s.acks.map Prod.snd).Nodup :=
    h.all.nodup_iff.mpr List.nodup_range
  exact (List.nodup_append.mp hnodup).2.2 e.2 (List.mem_map_of_mem he) e'.2
    (List.mem_map_of_mem he')

end Step

/-! ## A step -/

section Step

variable {i : Nat} {l : EventList Nat} {net : Network T}

section Arrival

variable {α : Type} {made : List (α × Nat)} {R : Route T} {j : Nat} {pkt : Packet} {p : α}

/-- The packet that arrives is the first of its kind in flight. -/
theorem Ok.arrives (h : Ok C (tcpEndhost cfg) s) (ha : s.net.arrival i = some (j, pkt))
    (hroute : ∀ e ∈ made, s.net.hopsOf e.2 = some R.hops)
    (horder : (made.map Prod.snd).Pairwise (· < ·)) (hp : State.lookup made pkt.id = some p) :
    ∃ rest, State.flying s.net made = p :: rest := by
  have hplace := Network.inPlace_reachable h.net
  have hmem := lookup_spec hp
  refine flying_head horder hmem
    ((Network.inFlight_iff hplace).mpr (Network.flying_of_arrival ha)) fun e he hin => ?_
  exact Network.arrival_first hplace (Network.inOrder_reachable h.net) ha (hroute _ hmem)
    (hroute e he) ((Network.inFlight_iff hplace).mp hin)

/-- A packet that arrives is the only one that is not in flight afterwards. -/
theorem Ok.arrived (h : Ok C (tcpEndhost cfg) s) {acts : List (Network.HostAct T)}
    (hstep : s.net.step (.dispatch acts) = some net) (hnext : s.net.list.next = .event i l)
    (hnone : ∀ j, net.lostAt j = []) (ha : s.net.arrival i = some (j, pkt))
    (hroute : ∀ e ∈ made, s.net.hopsOf e.2 = some R.hops)
    (horder : (made.map Prod.snd).Pairwise (· < ·)) (hp : State.lookup made pkt.id = some p) :
    State.flying s.net made = p :: State.flying net made := by
  have hplace := Network.inPlace_reachable h.net
  have hplace' : Network.InPlace none net := Network.inPlace_step hplace hstep
  have hmem := lookup_spec hp
  have hafter : ∀ e ∈ made, net.inFlight e.2 = true → pkt.id < e.2 := fun e he hin =>
    Network.overtakes_dispatch hplace (Network.inOrder_reachable h.net) hnext ha hstep
      (hroute _ hmem) (hroute e he) ((Network.inFlight_iff hplace').mp hin)
  refine flying_cons horder hmem
    ((Network.inFlight_iff hplace).mpr (Network.flying_of_arrival ha)) ?_ (fun e he hne => ?_)
    hafter
  · by_contra hin
    exact Nat.lt_irrefl _ (hafter _ hmem (by simpa using hin))
  · refine h.stays hstep hnext hnone (hroute e he) fun j' pkt' ha' heq => hne ?_
    rw [ha] at ha'
    cases ha'
    exact heq.symm

end Arrival

variable (hs : C.Suits cfg flowsize) (h : Alone C cfg flowsize startTime s f)
  (halive : s.alive = true) (hnext : s.net.list.next = .event i l) (hnow : net.list.now = l.now)
include hs h halive hnext hnow

/-- No packet of the flow arrives. -/
theorem alone_idle
    (hother : ∀ j pkt, s.net.arrival i = some (j, pkt) → j ≠ C.snk ∧ j ≠ C.src)
    (hstep : s.net.step (.dispatch []) = some net)
    (hok : Ok C (tcpEndhost cfg) { s with net := net }) :
    ∃ f', Alone C cfg flowsize startTime { s with net := net } f' := by
  have hdoubling := h.advance hs halive hnext
  have hlen := @Network.length_dispatch T s.net net C.routeFwd C.flow C.src [] [] hstep
  have hbooks : Books C flowsize { s with net := net } { f with now := l.now } :=
    h.books.grow [] [] (Network.later_step hstep) hlen (List.append_nil _).symm rfl
      (List.append_nil _).symm (List.append_nil _).symm (fun k p hp => by cases hp)
      fun k a ha => by cases ha
  have hnone := hbooks.lossless hs hok h.refines.src hdoubling
  refine ⟨{ f with now := l.now }, hok, ⟨hnow.symm, h.refines.src, h.refines.sink,
    h.refines.alive, fun _ => ?_, fun _ => ?_⟩, hdoubling, hbooks⟩
  · refine (h.refines.data halive).trans (flying_same fun e he => ?_).symm
    refine h.ok.stays hstep hnext hnone (h.ok.data e he) fun j pkt ha heq => ?_
    have hend := Network.arrival_end ha (by rw [heq]; exact h.ok.data e he)
    rw [C.fwd_last] at hend
    exact (hother j pkt ha).1 (Option.some.inj hend).symm
  · refine (h.refines.acks halive).trans (flying_same fun e he => ?_).symm
    refine h.ok.stays hstep hnext hnone (h.ok.acks e he) fun j pkt ha heq => ?_
    have hend := Network.arrival_end ha (by rw [heq]; exact h.ok.acks e he)
    rw [C.rev_last] at hend
    exact (hother j pkt ha).2 (Option.some.inj hend).symm

/-- The source has an event. -/
theorem alone_event (hi : i = C.src) {src : TcpSrc D}
    {r : State (TcpSrc D) TcpSink T × List (Network.HostAct T)}
    (hdo : (tcpEndhost cfg).doNextEvent l.now s.nPackets (s.popEvent (tcpEndhost cfg) l.now).src =
      some src)
    (hr : C.handOn (tcpEndhost cfg) (s.popEvent (tcpEndhost cfg) l.now) src = some r)
    (hstep : s.net.step (.dispatch (r.2 ++ [])) = some net)
    (hok : Ok C (tcpEndhost cfg) { r.1 with net := net }) :
    ∃ f', Alone C cfg flowsize startTime { r.1 with net := net } f' := by
  obtain ⟨hle, hmin⟩ := h.first hnext hi
  have hpop := h.popEvent l.now
  have hflow : (Flow.system (tcpEndhost cfg)).step f .event =
      some ((f.popEvent (tcpEndhost cfg) l.now).handOn (tcpEndhost cfg) src) := by
    refine Flow.step_event (h.refines.alive.trans halive) hmin hle ?_
    rw [h.refines.data halive, h.refines.acks halive, hpop]
    exact hdo
  have hdoubling := Alone.flow (a := .event) hs h.doubling
    (h.prompt_event halive hnext hi) hflow
  obtain ⟨hbooks, hway⟩ := h.books.handOn (s.popEvent (tcpEndhost cfg) l.now)
    ((f.popEvent (tcpEndhost cfg) l.now).handOn (tcpEndhost cfg) src) hnext rfl rfl rfl rfl
    (TcpSrc.doNextEvent_stamps (s := (s.popEvent (tcpEndhost cfg) l.now).src) hdo) hr hstep rfl
  obtain ⟨pkts, times, hpkts, -, -, rfl⟩ := handOn_spec hr
  have hnone := hbooks.lossless hs hok rfl hdoubling
  have hstays : ∀ {n : Nat} {hops : List Nat}, s.net.hopsOf n = some hops →
      net.inFlight n = s.net.inFlight n := fun hn =>
    h.ok.stays hstep hnext hnone hn fun j pkt ha => by
      rw [hi] at ha
      exact absurd ha (no_arrival_src C)
  refine ⟨(f.popEvent (tcpEndhost cfg) l.now).handOn (tcpEndhost cfg) src, hok,
    ⟨hnow.symm, rfl, h.refines.sink, h.refines.alive, fun _ => ?_, fun _ => ?_⟩, hdoubling, hbooks⟩
  · show f.data ++ ((src.sent.drop (f.popEvent (tcpEndhost cfg) l.now).src.sent.length).map
      Sent.pkt) = State.flying net (s.data ++ pkts.zipIdx s.net.sent.length)
    have hnew : ∀ k < pkts.length, net.inFlight (s.net.sent.length + k) = true := fun k hk =>
      h.ok.starts hstep hnone (hway k (hk.trans_eq (congrArg List.length hpkts)))
    rw [flying_append, flying_same fun e he => hstays (h.ok.data e he), ← h.refines.data halive,
      flying_all hnew, hpkts, hpop]
    rfl
  · exact (h.refines.acks halive).trans
      (flying_same fun e he => hstays (h.ok.acks e he)).symm

/-- In it the source deletes itself. -/
theorem alone_deleted (hi : i = C.src)
    (hdo : (tcpEndhost cfg).doNextEvent l.now s.nPackets (s.popEvent (tcpEndhost cfg) l.now).src =
      none)
    (hstep : s.net.step (.dispatch []) = some net)
    (hok : Ok C (tcpEndhost cfg)
      { s.popEvent (tcpEndhost cfg) l.now with alive := false, net := net }) :
    ∃ f', Alone C cfg flowsize startTime
      { s.popEvent (tcpEndhost cfg) l.now with alive := false, net := net } f' := by
  obtain ⟨hle, hmin⟩ := h.first hnext hi
  have hpop := h.popEvent l.now
  have hflow : (Flow.system (tcpEndhost cfg)).step f .event =
      some { f.popEvent (tcpEndhost cfg) l.now with alive := false } := by
    refine Flow.step_deleted (h.refines.alive.trans halive) hmin hle ?_
    rw [h.refines.data halive, h.refines.acks halive, hpop]
    exact hdo
  have hdoubling := Alone.flow (a := .event) hs h.doubling
    (h.prompt_event halive hnext hi) hflow
  have hlen := @Network.length_dispatch T s.net net C.routeFwd C.flow C.src [] [] hstep
  have hbooks : Books C flowsize
      { s.popEvent (tcpEndhost cfg) l.now with alive := false, net := net }
      { f.popEvent (tcpEndhost cfg) l.now with alive := false } :=
    h.books.grow [] [] (Network.later_step hstep) hlen (List.append_nil _).symm rfl
      (List.append_nil _).symm (List.append_nil _).symm (fun k p hp => by cases hp)
      fun k a ha => by cases ha
  exact ⟨{ f.popEvent (tcpEndhost cfg) l.now with alive := false }, hok,
    ⟨hnow.symm, hpop, h.refines.sink, rfl, fun hc => (by cases hc), fun hc => (by cases hc)⟩,
    hdoubling, hbooks⟩

/-- The oldest ack arrives. -/
theorem alone_ack {j : Nat} {pkt : Packet} {a : DataAck}
    {r : State (TcpSrc D) TcpSink T × List (Network.HostAct T)}
    (ha : s.net.arrival i = some (j, pkt)) (hp : State.lookup s.acks pkt.id = some a)
    (hr : C.handOn (tcpEndhost cfg) s ((tcpEndhost cfg).receivePacket l.now a s.src) = some r)
    (hstep : s.net.step (.dispatch (r.2 ++ [])) = some net)
    (hok : Ok C (tcpEndhost cfg) { r.1 with net := net }) :
    ∃ f', Alone C cfg flowsize startTime { r.1 with net := net } f' := by
  have hfalive : f.alive = true := h.refines.alive.trans halive
  obtain ⟨rest, hrest⟩ := h.ok.arrives ha h.ok.acks h.ok.acksOrder hp
  have hflow := Flow.step_deliverAck (E := tcpEndhost cfg) (f := { f with now := l.now }) hfalive
    ((h.refines.acks halive).trans hrest)
  have hdoubling := Alone.flow (a := .deliverAck 0) hs (h.advance hs halive hnext) rfl hflow
  have hsrc : (tcpEndhost cfg).receivePacket l.now a f.src =
      (tcpEndhost cfg).receivePacket l.now a s.src := by rw [h.refines.src]
  obtain ⟨hbooks, hway⟩ := h.books.handOn s
    (({ f with now := l.now, acks := rest } : Flow (TcpSrc D) TcpSink).handOn (tcpEndhost cfg)
      ((tcpEndhost cfg).receivePacket l.now a f.src)) hnext rfl rfl rfl rfl
    (TcpSrc.receivePacket_stamps a s.src) hr hstep rfl
  obtain ⟨pkts, times, hpkts, -, -, rfl⟩ := handOn_spec hr
  have hnone := hbooks.lossless hs hok hsrc hdoubling
  refine ⟨({ f with now := l.now, acks := rest } : Flow (TcpSrc D) TcpSink).handOn
    (tcpEndhost cfg) ((tcpEndhost cfg).receivePacket l.now a f.src), hok,
    ⟨hnow.symm, hsrc, h.refines.sink, h.refines.alive, fun _ => ?_, fun _ => ?_⟩, hdoubling, hbooks⟩
  · show f.data ++ ((((tcpEndhost cfg).receivePacket l.now a f.src).sent.drop
      f.src.sent.length).map Sent.pkt) =
      State.flying net (s.data ++ pkts.zipIdx s.net.sent.length)
    have hdata : ∀ e ∈ s.data, net.inFlight e.2 = s.net.inFlight e.2 := fun e he =>
      h.ok.stays hstep hnext hnone (h.ok.data e he) fun j' pkt' ha' heq => by
        rw [ha] at ha'
        cases ha'
        exact h.books.disjoint he (lookup_spec hp) heq.symm
    have hnew : ∀ k < pkts.length, net.inFlight (s.net.sent.length + k) = true := fun k hk =>
      h.ok.starts hstep hnone (hway k (hk.trans_eq (congrArg List.length hpkts)))
    rw [flying_append, flying_same hdata, ← h.refines.data halive, flying_all hnew, hpkts, hsrc,
      h.refines.src]
    rfl
  · have hall := h.ok.arrived hstep hnext hnone ha h.ok.acks h.ok.acksOrder hp
    rw [hrest] at hall
    exact (List.cons.inj hall).2

/-- The oldest data packet arrives, and is answered. -/
theorem alone_data {j : Nat} {pkt : Packet} {p : DataPacket} {k : TcpSink × DataAck}
    (ha : s.net.arrival i = some (j, pkt)) (hp : State.lookup s.data pkt.id = some p)
    (hk : (tcpEndhost cfg).sinkReceive l.now { p with ecnFwd := p.ecnFwd || pkt.ecnFwd } s.sink = k)
    (hstep : s.net.step (.dispatch [.send C.routeRev C.flow ACK_SIZE]) = some net)
    (hok : Ok C (tcpEndhost cfg)
      { s with net := net, sink := k.1, acks := s.acks ++ [(k.2, s.net.sent.length)] }) :
    ∃ f', Alone C cfg flowsize startTime
      { s with net := net, sink := k.1, acks := s.acks ++ [(k.2, s.net.sent.length)] } f' := by
  have hfalive : f.alive = true := h.refines.alive.trans halive
  obtain ⟨rest, hrest⟩ := h.ok.arrives ha h.ok.data h.ok.dataOrder hp
  have hfirst : f.data = p :: rest := (h.refines.data halive).trans hrest
  have hdue := h.advance hs halive hnext
  -- with the mark that a queue has set
  obtain ⟨q, hq⟩ : ∃ q, { p with ecnFwd := p.ecnFwd || pkt.ecnFwd } = q := ⟨_, rfl⟩
  have hmarked : Flow.Doubling cfg flowsize startTime (C.roundTrip flowsize)
      { f with now := l.now, data := q :: rest } := by
    rw [← hq]
    cases pkt.ecnFwd with
    | false =>
      rw [Bool.or_false, ← hfirst]
      exact hdue
    | true =>
      rw [Bool.or_true]
      exact Alone.flow (a := .markEcn 0) hs hdue trivial (Flow.step_mark hfalive hfirst)
  have hflow : (Flow.system (tcpEndhost cfg)).step { f with now := l.now, data := q :: rest }
      (.deliverData 0) = some { f with
        now := l.now, data := rest, sink := k.1, acks := f.acks ++ [k.2],
        rcvd := f.rcvd ++ [q] } := by
    rw [Flow.step_deliverData (f := { f with now := l.now, data := q :: rest }) hfalive rfl, ← hk,
      ← hq, ← h.refines.sink]
  have hdoubling := Alone.flow (a := .deliverData 0) hs hmarked rfl hflow
  have hin : s.net.inFlight pkt.id = true :=
    (Network.inFlight_iff (Network.inPlace_reachable h.ok.net)).mpr (Network.flying_of_arrival ha)
  have hlen := @Network.length_dispatch T s.net net C.routeRev C.flow C.src [ACK_SIZE] [] hstep
  have horigin := @Network.origin_dispatch T s.net net C.routeRev C.flow [ACK_SIZE] [] i l hnext
    hstep 0 ACK_SIZE rfl
  have hway := @Network.underway_new T s.net net C.routeRev C.flow [ACK_SIZE] [] hstep
  have hts : k.2.ts = p.ts := by
    rw [← hk]
    rfl
  have hbooks : Books C flowsize
      { s with net := net, sink := k.1, acks := s.acks ++ [(k.2, s.net.sent.length)] }
      { f with
        now := l.now, data := rest, sink := k.1, acks := f.acks ++ [k.2],
        rcvd := f.rcvd ++ [q] } := by
    refine h.books.grow [] [k.2] (Network.later_step hstep) hlen (List.append_nil _).symm
      List.length_append (List.append_nil _).symm rfl (fun m x hx => by cases hx) fun m a hm => ?_
    cases m with
    | succ m => cases hm
    | zero =>
      cases hm
      refine ⟨l.now, horigin, ?_⟩
      rw [hts]
      exact h.due_data hnext (lookup_spec hp) hin
  have hnone := hbooks.lossless hs hok h.refines.src hdoubling
  refine ⟨{ f with
    now := l.now, data := rest, sink := k.1, acks := f.acks ++ [k.2], rcvd := f.rcvd ++ [q] },
    hok, ⟨hnow.symm, h.refines.src, rfl, h.refines.alive, fun _ => ?_, fun _ => ?_⟩, hdoubling,
    hbooks⟩
  · have hall := h.ok.arrived hstep hnext hnone ha h.ok.data h.ok.dataOrder hp
    rw [hrest] at hall
    exact (List.cons.inj hall).2
  · show f.acks ++ [k.2] = State.flying net (s.acks ++ [k.2].zipIdx s.net.sent.length)
    have hacks : ∀ e ∈ s.acks, net.inFlight e.2 = s.net.inFlight e.2 := fun e he =>
      h.ok.stays hstep hnext hnone (h.ok.acks e he) fun j' pkt' ha' heq => by
        rw [ha] at ha'
        cases ha'
        exact h.books.disjoint (lookup_spec hp) he heq
    have hnew : ∀ m < [k.2].length, net.inFlight (s.net.sent.length + m) = true := fun m hm =>
      h.ok.starts hstep hnone (hway m hm)
    rw [flying_append, flying_same hacks, ← h.refines.acks halive, flying_all hnew]

end Step

/-! ## Every run -/

theorem alone_step {t : State (TcpSrc D) TcpSink T} (hs : C.Suits cfg flowsize)
    (h : Alone C cfg flowsize startTime s f)
    (hstep : C.step (tcpEndhost cfg) s (.dispatch []) = some t) :
    ∃ f', Alone C cfg flowsize startTime t f' := by
  have hok := ok_step (tcp_registers cfg) h.ok hstep
  obtain ⟨halive, hcases⟩ := step_cases hstep
  rcases hcases with ⟨others, net, hact, -⟩ |
    ⟨others, i, l, r, net, hact, hothers, hnext, hr, hnet, rfl⟩
  · cases hact
  · cases hact
    have hnow := (ok_dispatch (tcp_registers cfg) h.ok hothers hnext hr hnet).2
    cases hr with
    | idle hi hother => exact alone_idle hs h halive hnext hnow hother hnet hok
    | event hi hdo hr => exact alone_event hs h halive hnext hnow hi hdo hr hnet hok
    | deleted hi hdo => exact alone_deleted hs h halive hnext hnow hi hdo hnet hok
    | data hi ha hp => exact alone_data hs h halive hnext hnow ha hp rfl hnet hok
    | ack hi ha hp hr => exact alone_ack hs h halive hnext hnow ha hp hr hnet hok

theorem alone_of_run (hs : C.Suits cfg flowsize) {time : UInt64} {n : Nat}
    (h : (C.system (tcpEndhost cfg)).run (C.init (tcpEndhost cfg) flowsize 0 time)
      (List.replicate n (.dispatch [])) = some s) :
    ∃ f, Alone C cfg flowsize time.toNat s f :=
  Lts.run_induction_along (I := fun s => ∃ f, Alone C cfg flowsize time.toNat s f)
    (G := fun _ a => a = .dispatch [])
    (fun _ _ _ ⟨_, hu⟩ ha hstep => by
      cases ha
      exact alone_step hs hu hstep)
    ⟨_, alone_init hs time⟩
    (Lts.along_of_forall_mem fun _ ha => List.eq_of_mem_replicate ha) h

/-- In every run of the flow alone: no queue drops a packet; what the source has sent are the
    segments of the flow, once each and in order; when it is finished the sink has all of them; and
    until then it is not older than `log 2 (n + 1)` round trips, where `n` is their number. -/
theorem lone_finishes (hs : C.Suits cfg flowsize) {time : UInt64} {n : Nat}
    (h : (C.system (tcpEndhost cfg)).run (C.init (tcpEndhost cfg) flowsize 0 time)
      (List.replicate n (.dispatch [])) = some s) :
    (∀ i, s.net.lostAt i = []) ∧
      (∀ i e, s.src.sent[i]? = some e → e.pkt.seqno = i * MSS_BYTES + 1) ∧
      s.src.sent.length ≤ segmentCount flowsize ∧
      (s.src.state = .finish → s.sink.cumulativeAck = segmentCount flowsize * MSS_BYTES) ∧
      (s.src.state = .finish ∨
        s.net.list.now ≤ time.toNat +
          Nat.log 2 (segmentCount flowsize + 1) * C.roundTrip flowsize) := by
  obtain ⟨f, hf⟩ := alone_of_run hs h
  have hline := hf.doubling.smooth.inLine
  have hfinishes := Flow.finishesInTime_of_doubling hf.doubling
  rw [← hf.refines.src, ← hf.refines.now, ← hf.refines.sink]
  refine ⟨hf.books.lossless hs hf.ok hf.refines.src hf.doubling, fun i e he => ?_,
    Flow.sent_le hline hf.doubling.sized, fun hfin => ?_, hfinishes.in_time⟩
  · have hnumber := hline.numbered i e.pkt (by rw [List.getElem?_map, he, Option.map_some])
    exact congrArg DataPacket.seqno hnumber
  · rw [hline.sink, (hfinishes.delivered hfin).1]

/-- The flow of two segments over one link suits it. -/
theorem suits_linkConnection : linkConnection.Suits plainTcp 3000 where
  plain := rfl
  fits := fun i q hq => by
    have hload : linkConnection.load 3000 i ≤ 3080 := by
      rw [load]
      split_ifs <;> decide
    have hsize : 512000 ≤ q.maxsize := by
      simp only [singleLink] at hq
      split at hq
      all_goals cases hq
      all_goals decide
    omega
  quick := by decide +kernel
  pos := by decide
  small := by decide

theorem lone_finishes_ackedSegments :
    (∀ i, ackedSegments.net.lostAt i = []) ∧
      (∀ i e, ackedSegments.src.sent[i]? = some e → e.pkt.seqno = i * MSS_BYTES + 1) ∧
      ackedSegments.src.sent.length ≤ segmentCount 3000 ∧
      (ackedSegments.src.state = .finish →
        ackedSegments.sink.cumulativeAck = segmentCount 3000 * MSS_BYTES) ∧
      (ackedSegments.src.state = .finish ∨
        ackedSegments.net.list.now ≤ (0 : UInt64).toNat +
          Nat.log 2 (segmentCount 3000 + 1) * linkConnection.roundTrip 3000) :=
  lone_finishes suits_linkConnection run_ackedSegments

end Connection
end Htsim
end DatacenterNetworking
