/-
  DatacenterNetworking.Htsim.PacketPair

  `PacketPairSrc` and `PacketPairSink` (`packetpair.cpp`).  The source sends pairs
  of segments; the gap between the two at the sink tells the rate of the
  bottleneck, and with it when the next pair is sent.

  What is computed in floating point is a parameter, `PairFloat`.  The rate
  measurement and the RTT gradient, which only the trace reads, are left out.
-/

import DatacenterNetworking.Htsim.Flow
import DatacenterNetworking.Htsim.PacedSource
import Mathlib.Algebra.Order.Ring.Rat

namespace DatacenterNetworking
namespace Htsim

/-- The floating-point operations of `PacketPairSrc`, on `_alpha` of type `D`. -/
structure PairFloat (D : Type) where
  zero : D
  /-- `_alpha * (1 - DCTCP_GAIN) + (marked / total) * DCTCP_GAIN` -/
  update : D → Nat → Nat → D
  /-- `llround(_pktpair_ewma * (1 - PKTPAIR_GAIN) + pktpairdiff * PKTPAIR_GAIN)` -/
  ewma : Nat → Nat → Nat
  /-- `_rate_estimate * timeAsSec(_min_rtt) / 8`, as a `uint64_t` -/
  bdp : Nat → Nat → Nat
  /-- `llround(_rate_estimate * (1.0 - _alpha / 2))` -/
  damp : Nat → D → Nat
  /-- `timeFromSec((2.0 * MSS_BYTES * 8) / _rate_estimate)` -/
  pairTime : Nat → Nat

/-- `PairFloat` in exact arithmetic. -/
def exactPair : PairFloat Rat where
  zero := 0
  update := fun alpha marked total => alpha * (1 - 1 / 16) + marked / total * (1 / 16)
  ewma := fun ewma gap => llround (ewma * (1 - 1 / 2) + gap * (1 / 2))
  bdp := fun rate rtt => (rate * (rtt / 10 ^ 12) / 8 : Rat).floor.toNat
  damp := fun rate alpha => llround (rate * (1 - alpha / 2))
  pairTime := fun rate => llround (2 * MSS_BYTES * 8 / rate * 10 ^ 12)

/-- `PacketPairSrc`. -/
structure PacketPairSrc (D : Type) extends PacedSource where
  rateEstimate : Nat
  pktpairEwma : Nat
  firstRto : Nat
  alpha : D
  markedPkts : Nat
  totalPkts : Nat

namespace PacketPairSrc

variable {D : Type} (float : PairFloat D)

/-- The constructor, and `connect`. -/
def new (flowsize duration startTime endtime : Nat) : PacketPairSrc D where
  toPacedSource := PacedSource.new flowsize duration startTime endtime
  rateEstimate := 0
  pktpairEwma := 0
  firstRto := 0
  alpha := float.zero
  markedPkts := 0
  totalPkts := 0

/-! ## Sending -/

/-- More than the limit is in flight. -/
def Blocked (s : PacedSource) : Prop :=
  s.bdpEstimate ≠ 0 ∧ s.bdpLimit < sub64 s.highestSent s.lastAcked

instance (s : PacedSource) : Decidable (Blocked s) := inferInstanceAs (Decidable (_ ∧ _))

/-- `PacketPairSrc::transmitPacketPair`. -/
def transmitPacketPair (now : Nat) (s : PacedSource) : PacedSource :=
  if s.AllSent then s
  else if Blocked s then s
  else
    -- the first packet of the pair may be the last of the flow
    let s' := (s.sendNext now true).armRto now
    if s'.AllSent then s' else s'.sendNext now false

/-- `PacketPairSrc::sendPackets`. -/
def sendPackets (now : Nat) (s : PacketPairSrc D) : PacketPairSrc D :=
  let p := transmitPacketPair now s.toPacedSource
  { s with
    toPacedSource :=
      { p with toDataSource := p.sourceIsPending (now + float.pairTime s.rateEstimate) } }

/-! ## Events -/

/-- The first pair, sent again as long as there is no estimate. -/
def start (now : Nat) (s : PacketPairSrc D) : PacketPairSrc D :=
  let p := transmitPacketPair now
    { s.toPacedSource with highestSent := 0, lastAcked := 0, bdpEstimate := 2 * MSS_BYTES }
  { s with
    toPacedSource :=
      { p with toDataSource := p.sourceIsPending (now + s.rto), state := .startup }
    firstRto := now + s.rto }

/-- `doNextEvent` once the flow is under way. -/
def goOn (now : Nat) (s : PacketPairSrc D) : PacketPairSrc D :=
  -- the start that the first estimate made superfluous
  if now = s.firstRto then s
  else if s.state ≠ .finish then sendPackets float now s
  else { s with toDataSource := s.sourceIsPending (now + s.rtt) }

/-- `PacketPairSrc::doNextEvent`. -/
def doNextEvent (now nPackets : Nat) (s : PacketPairSrc D) : Option (PacketPairSrc D) :=
  if s.state = .idle ∨ (s.state = .startup ∧ now = s.firstRto) then some (start now s)
  else if s.state = .finish then
    -- the start that is still in the event list keeps the flow from deleting itself
    if nPackets = 0 ∧ s.firstRto < now then none else some (goOn float now s)
  else if s.rtoTimeout ≠ 0 ∧ s.rtoTimeout ≤ now then
    some (goOn float now { s with toPacedSource := s.timeout now })
  else some (goOn float now s)

/-! ## Acks -/

/-- The ECN counters, and `_alpha` at the end of a window. -/
def updateAlpha (ecnRev : Bool) (s : PacketPairSrc D) : PacketPairSrc D :=
  let marked := if ecnRev then u32 (s.markedPkts + 1) else s.markedPkts
  let total := u32 (s.totalPkts + 1)
  if s.bdpEstimate < u32 (total * MSS_BYTES) then
    { s with alpha := float.update s.alpha marked total, markedPkts := 0, totalPkts := 0 }
  else { s with markedPkts := marked, totalPkts := total }

/-- `(MSS_BYTES * 8 * timeFromSec(1)) / gap`. -/
def rateOf (gap : Nat) : Nat := MSS_BYTES * 8 * 10 ^ 12 / gap

/-- `_bdp_estimate`, two segments at least. -/
def bdpOf (rate : Nat) (s : PacketPairSrc D) : Nat := max (float.bdp rate s.minRtt) (2 * MSS_BYTES)

/-- The estimates, from the gap between the packets of a pair. -/
def updateRate (pktpairdiff : Nat) (s : PacketPairSrc D) : PacketPairSrc D :=
  let ewma := float.ewma s.pktpairEwma pktpairdiff
  if ewma ≠ 0 then
    { s with
      pktpairEwma := ewma
      bdpEstimate := bdpOf float (rateOf ewma) s
      rateEstimate := float.damp (rateOf ewma) s.alpha }
  else { s with pktpairEwma := ewma }

/-- The first estimate: sending begins. -/
def firstEstimate (now pktpairdiff : Nat) (s : PacketPairSrc D) : PacketPairSrc D :=
  sendPackets float now
    { s with
      state := .normal
      pktpairEwma := pktpairdiff
      rateEstimate := rateOf pktpairdiff
      bdpEstimate := bdpOf float (rateOf pktpairdiff) s }

/-- What `receivePacket` does with `pktpairdiff`. -/
def takeGap (now pktpairdiff : Nat) (s : PacketPairSrc D) : PacketPairSrc D :=
  if pktpairdiff ≠ 0 then
    let s' := updateRate float pktpairdiff s
    if s'.state = .startup then firstEstimate float now pktpairdiff s' else s'
  else s

/-- What an ack that is taken does to the estimates, before it is processed. -/
def updateEstimates (now : Nat) (a : DataAck) (s : PacketPairSrc D) : PacketPairSrc D :=
  updateAlpha float a.ecnRev { s with toPacedSource := s.updateRtt now a.ts }

/-- `PacketPairSrc::receivePacket`. -/
def receivePacket (now : Nat) (a : DataAck) (s : PacketPairSrc D) : PacketPairSrc D :=
  if s.state = .finish then s
  else if s.Completes now a.ackno then { s with state := .finish }
  else if a.ackno < s.lastAcked then s
  else
    let s' := takeGap float now a.seqno (updateEstimates float now a s)
    { s' with toPacedSource := s'.processAck now a.ackno }

end PacketPairSrc

/-- `PacketPairSink`. -/
structure PacketPairSink extends DataSink where
  pktpairdiff : Nat
  firstPairTs : Nat
  firstPairSeqno : Nat
  deriving DecidableEq, Repr

/-- The constructor. -/
def PacketPairSink.new : PacketPairSink where
  toDataSink := DataSink.new
  pktpairdiff := 0
  firstPairTs := 0
  firstPairSeqno := 0

/-- The measurement of the gap in `PacketPairSink::receivePacket`. -/
def PacketPairSink.measure (now : Nat) (p : DataPacket) (k : PacketPairSink) : PacketPairSink :=
  if p.ppFirst then { k with pktpairdiff := 0, firstPairTs := now, firstPairSeqno := p.seqno }
  else
    { k with
      -- the gap counts only between the two packets of one pair
      pktpairdiff :=
        if k.firstPairSeqno = sub64 p.seqno MSS_BYTES then sub64 now k.firstPairTs else 0
      firstPairTs := 0
      firstPairSeqno := 0 }

/-- `PacketPairSink::receivePacket`.  The ack carries the gap as its `seqno`. -/
def PacketPairSink.receivePacket (now : Nat) (p : DataPacket) (k : PacketPairSink) :
    PacketPairSink × DataAck :=
  let k' := measure now p { k with toDataSink := k.processDataPacket p }
  (k', { seqno := k'.pktpairdiff, ackno := k'.cumulativeAck, ts := p.ts, ecnRev := p.ecnFwd })

namespace PacketPairSrc

/-! ## A `PacketPairSrc` is a sender -/

variable {D : Type} {float : PairFloat D} {ack : Option Nat} {now : Nat} {b : DataSource}

theorem transmitPacketPair_moves {s : PacedSource} (h : DataSource.Moves ack b s.toDataSource) :
    DataSource.Moves ack b (transmitPacketPair now s).toDataSource := by
  simp only [transmitPacketPair]
  split_ifs with hall hblocked hall'
  · exact h
  · exact h
  · rw [PacedSource.armRto_source]
    exact PacedSource.sendNext_moves h hall
  · refine PacedSource.sendNext_moves ?_ hall'
    rw [PacedSource.armRto_source]
    exact PacedSource.sendNext_moves h hall

theorem sendPackets_moves {s : PacketPairSrc D} (h : DataSource.Moves ack b s.toDataSource) :
    DataSource.Moves ack b (sendPackets float now s).toDataSource :=
  (transmitPacketPair_moves h).trans (DataSource.moves_sourceIsPending _ _)

theorem start_moves (s : PacketPairSrc D) :
    DataSource.Moves none s.toDataSource (start now s).toDataSource :=
  (transmitPacketPair_moves DataSource.Move.restart.moves).trans
    (DataSource.moves_sourceIsPending _ _)

theorem goOn_moves {s : PacketPairSrc D} (h : DataSource.Moves ack b s.toDataSource) :
    DataSource.Moves ack b (goOn float now s).toDataSource := by
  simp only [goOn]
  split_ifs
  · exact h
  · exact sendPackets_moves h
  · exact h.trans (DataSource.moves_sourceIsPending _ _)

theorem doNextEvent_moves {nPackets : Nat} {s t : PacketPairSrc D}
    (h : doNextEvent float now nPackets s = some t) :
    DataSource.Moves none s.toDataSource t.toDataSource := by
  unfold doNextEvent at h
  split_ifs at h
  · cases h
    exact start_moves s
  · cases h
    exact goOn_moves (DataSource.Moves.refl _)
  · cases h
    exact goOn_moves (PacedSource.timeout_moves s.toPacedSource)
  · cases h
    exact goOn_moves (DataSource.Moves.refl _)

@[simp] theorem updateAlpha_source (ecnRev : Bool) (s : PacketPairSrc D) :
    (updateAlpha float ecnRev s).toPacedSource = s.toPacedSource := by
  simp only [updateAlpha]
  split_ifs <;> rfl

@[simp] theorem updateEstimates_source (a : DataAck) (s : PacketPairSrc D) :
    (updateEstimates float now a s).toDataSource = s.toDataSource := by
  rw [updateEstimates, updateAlpha_source]
  exact PacedSource.updateRtt_source _ _

@[simp] theorem updateEstimates_state (a : DataAck) (s : PacketPairSrc D) :
    (updateEstimates float now a s).state = s.state := by
  rw [updateEstimates, updateAlpha_source]
  exact PacedSource.updateRtt_state _ _

@[simp] theorem updateRate_source (pktpairdiff : Nat) (s : PacketPairSrc D) :
    (updateRate float pktpairdiff s).toDataSource = s.toDataSource := by
  simp only [updateRate]
  split_ifs <;> rfl

@[simp] theorem updateRate_state (pktpairdiff : Nat) (s : PacketPairSrc D) :
    (updateRate float pktpairdiff s).state = s.state := by
  simp only [updateRate]
  split_ifs <;> rfl

theorem takeGap_moves {pktpairdiff : Nat} {s : PacketPairSrc D}
    (h : DataSource.Moves ack b s.toDataSource) :
    DataSource.Moves ack b (takeGap float now pktpairdiff s).toDataSource := by
  have hrate : DataSource.Moves ack b (updateRate float pktpairdiff s).toDataSource := by
    rw [updateRate_source]
    exact h
  simp only [takeGap]
  split_ifs
  · exact sendPackets_moves hrate
  · exact hrate
  · exact h

/-- An ack that neither ends the flow nor comes from the past. -/
theorem receivePacket_eq {a : DataAck} {s : PacketPairSrc D} (hstate : s.state ≠ .finish)
    (hgo : ¬ s.Completes now a.ackno) (hnew : s.lastAcked ≤ a.ackno) :
    (receivePacket float now a s).toPacedSource =
      (takeGap float now a.seqno (updateEstimates float now a s)).processAck now a.ackno := by
  rw [receivePacket, if_neg hstate, if_neg hgo, if_neg (Nat.not_lt_of_le hnew)]

/-- An ack from the past. -/
theorem receivePacket_old {a : DataAck} {s : PacketPairSrc D} (hstate : s.state ≠ .finish)
    (hgo : ¬ s.Completes now a.ackno) (hold : a.ackno < s.lastAcked) :
    receivePacket float now a s = s := by
  rw [receivePacket, if_neg hstate, if_neg hgo, if_pos hold]

theorem receivePacket_moves {a : DataAck} {s : PacketPairSrc D} (hstate : s.state ≠ .finish)
    (hgo : ¬ s.Completes now a.ackno) :
    DataSource.Moves (some a.ackno) s.toDataSource
      (receivePacket float now a s).toDataSource := by
  rcases Nat.lt_or_ge a.ackno s.lastAcked with hold | hnew
  · rw [receivePacket_old hstate hgo hold]
    exact DataSource.Moves.refl _
  · rw [receivePacket_eq hstate hgo hnew]
    -- the first gap may send before the ack is processed
    have hgap : DataSource.Moves (some a.ackno) s.toDataSource
        (takeGap float now a.seqno (updateEstimates float now a s)).toDataSource := by
      apply takeGap_moves
      rw [updateEstimates_source]
      exact DataSource.Moves.refl _
    refine hgap.trans (PacedSource.processAck_moves ?_)
    rw [hgap.grown.flowsize]
    unfold DataSource.Completes at hgo
    omega

/-! ## When a `PacketPairSrc` finishes -/

@[simp] theorem transmitPacketPair_state (s : PacedSource) :
    (transmitPacketPair now s).state = s.state := by
  simp only [transmitPacketPair]
  split_ifs
  · rfl
  · rfl
  · exact PacedSource.armRto_state _
  · exact PacedSource.armRto_state _

@[simp] theorem sendPackets_state (s : PacketPairSrc D) :
    (sendPackets float now s).state = s.state :=
  transmitPacketPair_state s.toPacedSource

@[simp] theorem goOn_state (s : PacketPairSrc D) : (goOn float now s).state = s.state := by
  simp only [goOn]
  split_ifs
  · rfl
  · exact sendPackets_state s
  · rfl

/-- The first gap ends the startup; otherwise a gap sends nothing. -/
theorem takeGap_state (float : PairFloat D) (now pktpairdiff : Nat) (s : PacketPairSrc D) :
    (s.state = .startup ∧ (takeGap float now pktpairdiff s).state = .normal) ∨
      ((takeGap float now pktpairdiff s).state = s.state ∧
        (takeGap float now pktpairdiff s).toDataSource = s.toDataSource) := by
  simp only [takeGap]
  split_ifs with _ hstartup
  · left
    rw [updateRate_state] at hstartup
    exact ⟨hstartup, sendPackets_state _⟩
  · exact Or.inr ⟨updateRate_state _ _, updateRate_source _ _⟩
  · exact Or.inr ⟨rfl, rfl⟩

theorem doNextEvent_open {nPackets : Nat} {s t : PacketPairSrc D} (hstate : s.state ≠ .finish)
    (h : doNextEvent float now nPackets s = some t) : t.state ≠ .finish := by
  simp only [doNextEvent, if_neg hstate] at h
  split_ifs at h
  · cases h
    exact nofun
  · cases h
    rw [goOn_state]
    show (s.toPacedSource.timeout now).state ≠ .finish
    rw [PacedSource.timeout_state]
    exact nofun
  · cases h
    rw [goOn_state]
    exact hstate

theorem receivePacket_open {a : DataAck} {s : PacketPairSrc D} (hstate : s.state ≠ .finish)
    (hgo : ¬ s.Completes now a.ackno) : (receivePacket float now a s).state ≠ .finish := by
  rcases Nat.lt_or_ge a.ackno s.lastAcked with hold | hnew
  · rw [receivePacket_old hstate hgo hold]
    exact hstate
  · rw [receivePacket_eq hstate hgo hnew]
    have hgap : (takeGap float now a.seqno (updateEstimates float now a s)).state ≠ .finish := by
      rcases takeGap_state float now a.seqno
        (updateEstimates float now a s) with ⟨-, h⟩ | ⟨h, -⟩
      · rw [h]
        exact nofun
      · rw [h, updateEstimates_state]
        exact hstate
    rcases PacedSource.processAck_state now a.ackno
      (takeGap float now a.seqno (updateEstimates float now a s)).toPacedSource
      with h | h | ⟨h, -⟩
    · rw [h]
      exact nofun
    · rw [h]
      exact nofun
    · rw [h]
      exact hgap

/-- An ack that completes the flow ends it, and it stays so. -/
theorem receivePacket_ends {a : DataAck} {s : PacketPairSrc D}
    (h : s.state = .finish ∨ s.Completes now a.ackno) :
    (receivePacket float now a s).state = .finish := by
  by_cases hstate : s.state = .finish
  · rw [receivePacket, if_pos hstate]
    exact hstate
  · rw [receivePacket, if_neg hstate, if_pos (h.resolve_left hstate)]

theorem doNextEvent_ends {nPackets : Nat} {s t : PacketPairSrc D} (hstate : s.state = .finish)
    (h : doNextEvent float now nPackets s = some t) : t.state = .finish := by
  have hstart : ¬ (s.state = .idle ∨ (s.state = .startup ∧ now = s.firstRto)) := by
    rw [hstate]
    exact nofun
  simp only [doNextEvent, if_neg hstart, if_pos hstate] at h
  split_ifs at h
  cases h
  rw [goOn_state]
  exact hstate

/-- A finished flow, or an ack that finishes it. -/
theorem receivePacket_stop {a : DataAck} {s : PacketPairSrc D}
    (h : s.state = .finish ∨ s.Completes now a.ackno) :
    (receivePacket float now a s).toDataSource = s.toDataSource := by
  by_cases hstate : s.state = .finish
  · rw [receivePacket, if_pos hstate]
  · rw [receivePacket, if_neg hstate, if_pos (h.resolve_left hstate)]

end PacketPairSrc

@[simp] theorem PacketPairSink.measure_dataSink (now : Nat) (p : DataPacket)
    (k : PacketPairSink) : (measure now p k).toDataSink = k.toDataSink := by
  simp only [measure]
  split_ifs <;> rfl

/-- Packet pair as the two ends of a flow. -/
def packetPairEndhost {D : Type} (float : PairFloat D) :
    Endhost (PacketPairSrc D) PacketPairSink where
  newSrc := PacketPairSrc.new float
  newSink := PacketPairSink.new
  source := fun s => s.toDataSource
  setSource := fun s b => { s with toDataSource := b }
  finished := fun s => decide (s.state = .finish)
  doNextEvent := PacketPairSrc.doNextEvent float
  receivePacket := PacketPairSrc.receivePacket float
  dataSink := PacketPairSink.toDataSink
  sinkReceive := PacketPairSink.receivePacket
  source_newSrc := fun _ _ _ _ => rfl
  finished_newSrc := fun _ _ _ _ => rfl
  dataSink_newSink := rfl
  source_setSource := fun _ _ => rfl
  finished_setSource := fun _ _ => rfl
  event_moves := fun _ _ _ _ h => PacketPairSrc.doNextEvent_moves h
  event_open := fun _ _ _ _ h hs =>
    decide_eq_false (PacketPairSrc.doNextEvent_open (of_decide_eq_false hs) h)
  receive_stop := fun _ _ s h => PacketPairSrc.receivePacket_stop (by rwa [decide_eq_true_eq] at h)
  receive_moves := fun _ _ s h hgo =>
    PacketPairSrc.receivePacket_moves (of_decide_eq_false h) hgo
  receive_open := fun _ _ _ h hgo =>
    decide_eq_false (PacketPairSrc.receivePacket_open (of_decide_eq_false h) hgo)
  sink_receive := fun now p k => PacketPairSink.measure_dataSink now p _
  sink_ackno := fun _ _ _ => rfl

end Htsim
end DatacenterNetworking
