/-
  DatacenterNetworking.Htsim.AckOrder

  "Delayed / reordered ack. Shouldn't happen for simple queues", says `tcp.cpp` where an
  ack below `_last_acked` is ignored.  It does not: when nothing is duplicated or
  reordered the acks in flight only rise, from `_last_acked` on (`AcksRise`), and a
  network of queues and pipes is of that kind, whatever it drops and whatever the other
  flows do (`acks_rise`).

  The sources this is about are `TcpSrc` and `TimelySrc`, whose packets all go out before
  they ask for events.
-/

import DatacenterNetworking.Htsim.ConnectionFlow
import DatacenterNetworking.Htsim.PairPending
import DatacenterNetworking.Htsim.TcpStep

namespace DatacenterNetworking
namespace Htsim

/-! ## The sources -/

theorem DataSource.prefix_sourceIsPending (b : DataSource) (time : Nat) :
    b.pending <+: (b.sourceIsPending time).pending := by
  simp only [sourceIsPending]
  split_ifs
  · exact List.prefix_append _ _
  · exact List.prefix_rfl

namespace TcpSrc

variable {D : Type} {now nPackets : Nat}

/-- Every event of a source that lives on asks for the next check. -/
theorem doNextEvent_asks {s t : TcpSrc D} (h : doNextEvent now nPackets s = some t) :
    s.pending <+: t.pending := by
  have hcheck : ∀ {u : TcpSrc D}, u.pending = s.pending →
      s.pending <+: (scheduleCheck now u).pending := fun hu => by
    rw [← hu]
    exact DataSource.prefix_sourceIsPending _ _
  cases nextEvent h with
  | start => exact hcheck (sendPackets_pending _)
  | expire => exact hcheck (retransmitPacket_pending _)
  | check => exact hcheck rfl

end TcpSrc

theorem tcp_registers {D : Type} (cfg : TcpConfig D) : (tcpEndhost cfg).Registers where
  event := TcpSrc.doNextEvent_asks
  receive := fun _ a s => prefix_of_eq (TcpSrc.receivePacket_pending a s)

namespace TimelySrc

variable {D : Type} {float : TimelyFloat D} {now nPackets : Nat}

theorem goOn_asks (float : TimelyFloat D) (now : Nat) (s : TimelySrc D) :
    s.pending <+: (goOn float now s).pending := by
  have hsent : (sendPackets now s.toPacedSource).pending = s.pending := sendPackets_pending _
  simp only [goOn]
  split_ifs
  · rw [← hsent]
    exact DataSource.prefix_sourceIsPending _ _
  · exact DataSource.prefix_sourceIsPending _ _

theorem doNextEvent_asks {s t : TimelySrc D} (h : doNextEvent float now nPackets s = some t) :
    s.pending <+: t.pending := by
  unfold doNextEvent at h
  split_ifs at h
  · cases h
    exact goOn_asks float now { s with toPacedSource := start s.toPacedSource }
  · cases h
    exact goOn_asks float now s
  · cases h
    have hsent : (s.toPacedSource.timeout now).pending = s.pending :=
      PacedSource.retransmitPacket_pending _
    rw [← hsent]
    exact goOn_asks float now { s with toPacedSource := s.toPacedSource.timeout now }
  · cases h
    exact goOn_asks float now s

end TimelySrc

theorem timely_registers {D : Type} (float : TimelyFloat D) : (timelyEndhost float).Registers where
  event := TimelySrc.doNextEvent_asks
  receive := fun _ a s => prefix_of_eq (TimelySrc.receivePacket_pending a s)

/-! ## Acks in an orderly network -/

namespace DataSource

/-- No event takes an ack. -/
theorem Moves.lastAcked_le {b b' : DataSource} (h : Moves none b b') :
    b'.lastAcked ≤ b.lastAcked := by
  refine h.keep (P := fun c => c.lastAcked ≤ b.lastAcked) (fun c c' hmove hc => ?_) le_rfl
  cases hmove with
  | restart => exact Nat.zero_le _
  | _ => exact hc

/-- What an ack leads to is not beyond it. -/
theorem Moves.lastAcked_le_ack {b b' : DataSource} {ackno : Nat} (h : Moves (some ackno) b b')
    (hle : b.lastAcked ≤ ackno) : b'.lastAcked ≤ ackno := by
  refine h.keep (P := fun c => c.lastAcked ≤ ackno) (fun c c' hmove hc => ?_) hle
  cases hmove with
  | ack => exact le_rfl
  | _ => exact hc

end DataSource

namespace Flow

variable {S K : Type} {E : Endhost S K}

/-- The acks in flight rise, from what the source has taken to what the sink has received. -/
structure AcksRise (E : Endhost S K) (s : Flow S K) : Prop where
  sorted : s.acks.Pairwise fun a b => a.ackno ≤ b.ackno
  fresh : ∀ a ∈ s.acks, (E.source s.src).lastAcked ≤ a.ackno
  made : ∀ a ∈ s.acks, a.ackno ≤ (E.dataSink s.sink).cumulativeAck
  taken : (E.source s.src).lastAcked ≤ (E.dataSink s.sink).cumulativeAck

theorem acksRise_init (E : Endhost S K) (flowsize duration startTime endtime : Nat) :
    AcksRise E (init E flowsize duration startTime endtime) where
  sorted := List.Pairwise.nil
  fresh := fun _ ha => absurd ha List.not_mem_nil
  made := fun _ ha => absurd ha List.not_mem_nil
  taken := by
    show (E.source (E.newSrc flowsize duration startTime endtime)).lastAcked ≤ _
    rw [E.source_newSrc, (DataSource.new_spec flowsize duration startTime endtime).2.2.2.1]
    exact Nat.zero_le _

/-- What the source has taken only falls, and acks get lost. -/
theorem AcksRise.of_sublist {s t : Flow S K} (h : AcksRise E s)
    (hlow : (E.source t.src).lastAcked ≤ (E.source s.src).lastAcked)
    (hacks : t.acks.Sublist s.acks) (hsink : t.sink = s.sink) : AcksRise E t where
  sorted := h.sorted.sublist hacks
  fresh := fun a ha => hlow.trans (h.fresh a (hacks.subset ha))
  made := fun a ha => by
    rw [hsink]
    exact h.made a (hacks.subset ha)
  taken := by
    rw [hsink]
    exact hlow.trans h.taken

/-- The oldest ack arrives, which no other is below. -/
theorem acksRise_ack {s : Flow S K} {a : DataAck} {rest : List DataAck} (h : AcksRise E s)
    (hacks : s.acks = a :: rest) :
    AcksRise E ({ s with acks := rest }.handOn E (E.receivePacket s.now a s.src)) := by
  have hlow : (E.source s.src).lastAcked ≤ a.ackno :=
    h.fresh a (by rw [hacks]; exact List.mem_cons_self)
  have hnew : (E.source (E.receivePacket s.now a s.src)).lastAcked ≤ a.ackno := by
    by_cases htakes : s.Takes E a
    · exact (E.receive_moves _ _ _ htakes.1 htakes.2).lastAcked_le_ack hlow
    · rw [Takes, not_and_or, Bool.not_eq_false, not_not] at htakes
      rw [E.receive_stop _ _ _ htakes]
      exact hlow
  have hsorted := h.sorted
  rw [hacks] at hsorted
  obtain ⟨hfirst, hrest⟩ := List.pairwise_cons.mp hsorted
  have hmade : ∀ x ∈ a :: rest, x.ackno ≤ (E.dataSink s.sink).cumulativeAck := by
    rw [← hacks]
    exact h.made
  obtain ⟨hmadeFirst, hmadeRest⟩ := List.forall_mem_cons.mp hmade
  exact
    { sorted := hrest
      fresh := fun x hx => hnew.trans (hfirst x hx)
      made := hmadeRest
      taken := hnew.trans hmadeFirst }

/-- The sink answers with its cumulative ack, which does not fall. -/
theorem acksRise_data {s : Flow S K} {p : DataPacket} {data rcvd : List DataPacket}
    (h : AcksRise E s) :
    AcksRise E { s with
      data := data
      sink := (E.sinkReceive s.now p s.sink).1
      acks := s.acks ++ [(E.sinkReceive s.now p s.sink).2]
      rcvd := rcvd } := by
  have hup : (E.dataSink s.sink).cumulativeAck ≤
      (E.dataSink (E.sinkReceive s.now p s.sink).1).cumulativeAck := by
    rw [E.sink_receive]
    exact DataSink.cumulativeAck_le _ _
  have hnew := E.sink_ackno s.now p s.sink
  refine ⟨?_, fun a ha => ?_, fun a ha => ?_, h.taken.trans hup⟩
  · refine List.pairwise_append.mpr ⟨h.sorted, List.pairwise_singleton _ _, fun a ha b hb => ?_⟩
    rw [List.mem_singleton.mp hb, hnew]
    exact (h.made a ha).trans hup
  · rcases List.mem_append.mp ha with hold | hlast
    · exact h.fresh a hold
    · rw [List.mem_singleton.mp hlast, hnew]
      exact h.taken.trans hup
  · rcases List.mem_append.mp ha with hold | hlast
    · exact (h.made a hold).trans hup
    · rw [List.mem_singleton.mp hlast, hnew]

theorem acksRise_step (s : Flow S K) (a : Act) (t : Flow S K) (ha : Orderly a)
    (h : AcksRise E s) (hstep : (system E).step s a = some t) : AcksRise E t := by
  have hact := act_of_step hstep
  cases a with
  | event =>
    -- the source has moved, and nothing else
    have hmoves : DataSource.Moves none (E.source s.src) (E.source t.src) := by
      rcases (stepped hstep).moves with hmoves | ⟨i, p, hevent, -⟩
      · exact hmoves
      · cases hevent
    obtain ⟨time, -, -, ⟨src, -, rfl⟩ | ⟨-, rfl⟩⟩ := event_cases hstep
    · exact h.of_sublist hmoves.lastAcked_le (List.Sublist.refl _) rfl
    · exact h.of_sublist hmoves.lastAcked_le (List.Sublist.refl _) rfl
  | advance time =>
    simp only [act] at hact
    split_ifs at hact
    cases hact
    exact h.of_sublist le_rfl (List.Sublist.refl _) rfl
  | deliverData i =>
    obtain ⟨r, -, rfl⟩ := Option.map_eq_some_iff.mp hact
    exact acksRise_data h
  | deliverAck i =>
    obtain ⟨r, hr, rfl⟩ := Option.map_eq_some_iff.mp hact
    obtain ⟨first, hfirst, rfl⟩ := Option.map_eq_some_iff.mp hr
    have hzero : i = 0 := ha
    subst hzero
    obtain ⟨rest, hacks⟩ := List.head?_eq_some_iff.mp (List.head?_eq_getElem?.trans hfirst)
    rw [hacks, List.eraseIdx_cons_zero]
    exact acksRise_ack h hacks
  | dataFault f =>
    obtain ⟨data, -, rfl⟩ := Option.map_eq_some_iff.mp hact
    exact h.of_sublist le_rfl (List.Sublist.refl _) rfl
  | ackFault f =>
    obtain ⟨acks, hacks, rfl⟩ := Option.map_eq_some_iff.mp hact
    cases f with
    | lose i =>
      obtain ⟨x, -, rfl⟩ := Option.map_eq_some_iff.mp hacks
      exact h.of_sublist le_rfl (List.eraseIdx_sublist _ _) rfl
    | duplicate i => exact absurd ha id
  | markEcn i =>
    obtain ⟨p, -, rfl⟩ := Option.map_eq_some_iff.mp hact
    exact h.of_sublist le_rfl (List.Sublist.refl _) rfl

end Flow

/-! ## Acks of queues and pipes -/

namespace Connection

variable {T : Topology} {S K : Type} {C : Connection T} {E : Endhost S K}

/-- At any time the acks in flight rise, and none is below `_last_acked`. -/
theorem acks_rise (hE : E.Registers) {flowsize duration : Nat} {startTime : UInt64}
    {acts : List (Network.Act T)} {s : State S K T}
    (h : (C.system E).run (C.init E flowsize duration startTime) acts = some s)
    (halive : s.alive = true) :
    (State.flying s.net s.acks).Pairwise (fun a b => a.ackno ≤ b.ackno) ∧
      ∀ a ∈ State.flying s.net s.acks, (E.source s.src).lastAcked ≤ a.ackno := by
  obtain ⟨f, hreach, -, hrel⟩ := reaches_of_run hE h
  have hrise : Flow.AcksRise E f :=
    hreach.invariant (Flow.acksRise_init E flowsize duration startTime.toNat 0) Flow.acksRise_step
  rw [← hrel.acks halive, ← hrel.src]
  exact ⟨hrise.sorted, hrise.fresh⟩

end Connection

/-! ## Two segments -/

/-- The flow of `single_link_simulation`. -/
def linkConnection : Connection singleLink where
  flow := 0
  src := 5
  snk := 2
  routeFwd := routeFwd
  routeRev := routeRev
  fwd_last := rfl
  rev_last := rfl

/-- A flow of two segments, when both acks are on their way. -/
def ackedSegments : Connection.State (TcpSrc Rat) TcpSink singleLink :=
  ((linkConnection.system (tcpEndhost plainTcp)).run
    (linkConnection.init (tcpEndhost plainTcp) 3000 0 0) (List.replicate 8 (.dispatch []))).get
    (by decide +kernel)

theorem run_ackedSegments :
    (linkConnection.system (tcpEndhost plainTcp)).run
      (linkConnection.init (tcpEndhost plainTcp) 3000 0 0) (List.replicate 8 (.dispatch [])) =
      some ackedSegments :=
  (Option.some_get _).symm

namespace Connection

theorem refines_flow_ackedSegments :
    ∃ f, (Flow.system (tcpEndhost plainTcp)).Reaches Flow.Orderly
      (Flow.init (tcpEndhost plainTcp) 3000 0 0 0) f ∧ Refines ackedSegments f :=
  refines_flow (tcp_registers plainTcp) run_ackedSegments

theorem acks_rise_ackedSegments :
    (State.flying ackedSegments.net ackedSegments.acks).Pairwise (fun a b => a.ackno ≤ b.ackno) ∧
      ∀ a ∈ State.flying ackedSegments.net ackedSegments.acks,
        ackedSegments.src.lastAcked ≤ a.ackno :=
  acks_rise (tcp_registers plainTcp) run_ackedSegments (by decide +kernel)

end Connection

end Htsim
end DatacenterNetworking
