/-
  DatacenterNetworking.Htsim.Completion

  End-to-end completion of flows with a size.  A source finishes on an ack for the
  whole flow; no ack is beyond what the sink has, and the sink has every byte up to
  what it acks.  No source sends a segment that starts beyond the end of its flow.

  The argument is about any `Endhost`.
-/

import DatacenterNetworking.Htsim.PacketPair
import DatacenterNetworking.Htsim.Tcp
import DatacenterNetworking.Htsim.Timely

namespace DatacenterNetworking
namespace Htsim
namespace Flow

section Generic

variable {S K : Type} {E : Endhost S K}

/-- The sink's cumulative ack does not go back in a step. -/
theorem cumulativeAck_step {s t : Flow S K} {a : Act} (hstep : step E s a = some t) :
    (E.dataSink s.sink).cumulativeAck ≤ (E.dataSink t.sink).cumulativeAck := by
  cases stepped hstep with
  | @data _ p =>
    show _ ≤ (E.dataSink (E.sinkReceive s.now p s.sink).1).cumulativeAck
    rw [E.sink_receive]
    exact DataSink.cumulativeAck_le _ _
  | event => exact le_rfl
  | deleted => exact le_rfl
  | ack => exact le_rfl
  | network => exact le_rfl

/-- A flow is finished by an ack that is delivered. -/
theorem finished_step {s t : Flow S K} {a : Act} (hstep : step E s a = some t)
    (hopen : E.finished s.src = false) (hfin : E.finished t.src = true) :
    ∃ p ∈ s.acks, (E.source s.src).Completes s.now p.ackno := by
  -- no event finishes a flow
  have hpop : ∀ time, E.finished (s.popEvent E time).src = false := by
    intro time
    rw [← hopen]
    exact E.finished_setSource _ _
  cases stepped hstep with
  | @event time src _ _ hnext =>
    have hsrc : E.finished src = false := E.event_open _ _ _ _ hnext (hpop time)
    exact absurd (hsrc.symm.trans hfin) Bool.false_ne_true
  | @deleted time => exact absurd ((hpop time).symm.trans hfin) Bool.false_ne_true
  | @ack i p _ hp =>
    by_contra hnot
    have hgo : ¬ (E.source s.src).Completes s.now p.ackno :=
      fun hends => hnot ⟨p, List.mem_of_getElem? hp, hends⟩
    exact absurd ((E.receive_open _ _ _ hopen hgo).symm.trans hfin) Bool.false_ne_true
  | data => exact absurd (hopen.symm.trans hfin) Bool.false_ne_true
  | network => exact absurd (hopen.symm.trans hfin) Bool.false_ne_true

/-- What holds of a flow of `size` bytes that has no duration. -/
structure SizedInv (E : Endhost S K) (size : Nat) (s : Flow S K) : Prop where
  inv : Inv E s
  within : (E.source s.src).Within
  flowsize : (E.source s.src).flowsize = size
  duration : (E.source s.src).duration = 0
  finished : E.finished s.src = true → size ≤ (E.dataSink s.sink).cumulativeAck

theorem sizedInv_init {flowsize : Nat} (hsize : 0 < flowsize) (startTime endtime : Nat) :
    SizedInv E flowsize (init E flowsize 0 startTime endtime) := by
  have hsrc : E.source (init E flowsize 0 startTime endtime).src =
      DataSource.new flowsize 0 startTime endtime := E.source_newSrc ..
  obtain ⟨hflow, hdur, -⟩ := DataSource.new_spec flowsize 0 startTime endtime
  refine
    { inv := inv_init flowsize 0 startTime endtime
      within := ?_
      flowsize := ?_
      duration := ?_
      finished := fun hfin => ?_ }
  · rw [hsrc]
    exact DataSource.within_new hsize 0 startTime endtime
  · rw [hsrc]
    exact hflow
  · rw [hsrc]
    exact hdur
  · replace hfin : E.finished (E.newSrc flowsize 0 startTime endtime) = true := hfin
    rw [E.finished_newSrc] at hfin
    cases hfin

theorem sizedInv_step {flowsize : Nat} (s : Flow S K) (a : Act) (t : Flow S K)
    (h : SizedInv E flowsize s) (hstep : (system E).step s a = some t) :
    SizedInv E flowsize t := by
  have hmoves : ∃ ack, DataSource.Moves ack (E.source s.src) (E.source t.src) := by
    rcases (stepped hstep).moves with hmoves | ⟨_, p, _, _, _, hmoves⟩
    · exact ⟨none, hmoves⟩
    · exact ⟨some p.ackno, hmoves⟩
  obtain ⟨ack, hmoves⟩ := hmoves
  refine
    { inv := inv_step s a t h.inv hstep
      within := hmoves.within h.within
      flowsize := hmoves.grown.flowsize.trans h.flowsize
      duration := hmoves.grown.duration.trans h.duration
      finished := fun hfin => ?_ }
  have hup := cumulativeAck_step hstep
  cases hopen : E.finished s.src with
  | true => exact (h.finished hopen).trans hup
  | false =>
    -- with no duration the ack is for the whole flow, and the sink has sent it
    obtain ⟨p, hp, hends⟩ := finished_step hstep hopen hfin
    have hack := (h.inv.acks p hp).2
    unfold DataSource.Completes at hends
    rw [h.flowsize, h.duration] at hends
    omega

/-- Every byte of the flow has reached the sink, and nothing was sent beyond it. -/
def Complete (E : Endhost S K) (flowsize : Nat) (s : Flow S K) : Prop :=
  (E.finished s.src = true → ∀ b, 1 ≤ b → b ≤ flowsize → Covers s.rcvd b) ∧
    ∀ e ∈ (E.source s.src).sent, e.pkt.seqno ≤ flowsize

theorem complete_of_reachable {flowsize : Nat} (hsize : 0 < flowsize) (startTime endtime : Nat)
    {s : Flow S K} (h : (system E).Reachable (init E flowsize 0 startTime endtime) s) :
    Complete E flowsize s := by
  have hinv : SizedInv E flowsize s :=
    h.invariant (sizedInv_init hsize startTime endtime) sizedInv_step
  refine ⟨fun hfin b hlow hhigh => ?_, fun e he => ?_⟩
  · -- a sink has received what it acks, and it acked the whole flow
    have hsound : (E.dataSink s.sink).Sound s.rcvd := by
      rw [hinv.inv.sink]
      exact sound_processAll DataSink.sound_new
    exact hsound.covered b hlow (hhigh.trans (hinv.finished hfin))
  · rw [← hinv.flowsize]
    exact hinv.within.sent e he

end Generic

/-- End-to-end completion, of each of the three sources with its sink. -/
theorem flows_complete {D₁ D₂ D₃ : Type} (cfg : TcpConfig D₁) (pair : PairFloat D₂)
    (timely : TimelyFloat D₃) (flowsize startTime endtime : Nat) (hsize : 0 < flowsize) :
    (∀ s, (system (tcpEndhost cfg)).Reachable
        (init (tcpEndhost cfg) flowsize 0 startTime endtime) s →
      Complete (tcpEndhost cfg) flowsize s) ∧
    (∀ s, (system (packetPairEndhost pair)).Reachable
        (init (packetPairEndhost pair) flowsize 0 startTime endtime) s →
      Complete (packetPairEndhost pair) flowsize s) ∧
    (∀ s, (system (timelyEndhost timely)).Reachable
        (init (timelyEndhost timely) flowsize 0 startTime endtime) s →
      Complete (timelyEndhost timely) flowsize s) :=
  ⟨fun _ => complete_of_reachable hsize startTime endtime,
    fun _ => complete_of_reachable hsize startTime endtime,
    fun _ => complete_of_reachable hsize startTime endtime⟩

/-- Of the first two segments of four the first is lost, and the duplicate ack.  The timeout sends
    the first again, and its ack the other two and the second once more. -/
def lossyTcp : List Act :=
  [.event, .dataFault (.lose 0), .deliverData 0, .ackFault (.lose 0)] ++ List.replicate 13 .event ++
    [.deliverData 0, .deliverAck 0, .deliverData 1, .deliverAck 0, .deliverData 1, .deliverAck 0]

/-- The first segment of the first pair is lost, and the pair sent again.  The gap at the sink ends
    the startup, and the other two follow. -/
def lossyPair : List Act :=
  [.event, .dataFault (.lose 0), .deliverData 0, .deliverAck 0, .event, .deliverData 0,
    .advance 2501200000, .deliverData 0, .deliverAck 0, .deliverAck 0, .event, .event,
    .deliverData 0, .deliverData 0, .deliverAck 0, .deliverAck 0]

/-- The first of four segments is lost, and sent again after three duplicate acks. -/
def lossyTimely : List Act :=
  List.replicate 4 .event ++
    [.dataFault (.lose 0), .deliverData 0, .deliverData 0, .deliverData 0, .deliverAck 0,
      .deliverAck 0, .deliverAck 0, .deliverData 0, .deliverAck 0]

/-- The flow of 6000 bytes ends in each of these runs. -/
theorem lossy_finish :
    ((system (tcpEndhost plainTcp)).run (init (tcpEndhost plainTcp) 6000 0 0 0) lossyTcp).any
        (fun s => decide (s.src.state = .finish)) ∧
      ((system (packetPairEndhost exactPair)).run (init (packetPairEndhost exactPair) 6000 0 0 0)
        lossyPair).any (fun s => decide (s.src.state = .finish)) ∧
      ((system (timelyEndhost exactTimely)).run (init (timelyEndhost exactTimely) 6000 0 0 0)
        lossyTimely).any (fun s => decide (s.src.state = .finish)) := by
  decide +kernel

/-- With each source it finishes although segments and acks are lost, and its sink has all of it. -/
theorem flows_complete_lossy :
    (∃ s, (system (tcpEndhost plainTcp)).run (init (tcpEndhost plainTcp) 6000 0 0 0) lossyTcp =
        some s ∧ s.src.state = .finish ∧ Complete (tcpEndhost plainTcp) 6000 s) ∧
    (∃ s, (system (packetPairEndhost exactPair)).run
        (init (packetPairEndhost exactPair) 6000 0 0 0) lossyPair = some s ∧
        s.src.state = .finish ∧ Complete (packetPairEndhost exactPair) 6000 s) ∧
    ∃ s, (system (timelyEndhost exactTimely)).run (init (timelyEndhost exactTimely) 6000 0 0 0)
        lossyTimely = some s ∧ s.src.state = .finish ∧
        Complete (timelyEndhost exactTimely) 6000 s := by
  obtain ⟨htcp, hpair, htimely⟩ :=
    flows_complete plainTcp exactPair exactTimely 6000 0 0 (by decide)
  obtain ⟨hfin₁, hfin₂, hfin₃⟩ := lossy_finish
  obtain ⟨s₁, hrun₁, hs₁⟩ := (Option.any_eq_true _ _).mp hfin₁
  obtain ⟨s₂, hrun₂, hs₂⟩ := (Option.any_eq_true _ _).mp hfin₂
  obtain ⟨s₃, hrun₃, hs₃⟩ := (Option.any_eq_true _ _).mp hfin₃
  exact
    ⟨⟨s₁, hrun₁, of_decide_eq_true hs₁, htcp s₁ ⟨lossyTcp, hrun₁⟩⟩,
      ⟨s₂, hrun₂, of_decide_eq_true hs₂, hpair s₂ ⟨lossyPair, hrun₂⟩⟩,
      ⟨s₃, hrun₃, of_decide_eq_true hs₃, htimely s₃ ⟨lossyTimely, hrun₃⟩⟩⟩

end Flow
end Htsim
end DatacenterNetworking
