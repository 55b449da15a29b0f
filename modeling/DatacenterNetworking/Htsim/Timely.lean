/-
  DatacenterNetworking.Htsim.Timely

  `TimelySrc` and `TimelySink` (`timely.cpp`): one segment at a time, at a rate
  that follows the gradient of the RTT.

  What is computed in floating point is a parameter, `TimelyFloat`.  The rate
  measurement, which only the trace reads, is left out.
-/

import DatacenterNetworking.Htsim.Flow
import DatacenterNetworking.Htsim.PacedSource
import DatacenterNetworking.Lib.ExtRat

namespace DatacenterNetworking
namespace Htsim

/-- The floating-point operations of `TimelySrc`, on values of type `D`. -/
structure TimelyFloat (D : Type) where
  zero : D
  /-- `_rtt_diff * (1 - TIMELY_ALPHA) + rise * TIMELY_ALPHA` -/
  diffUp : D → Nat → D
  /-- `_rtt_diff * (1 - TIMELY_ALPHA) - fall * TIMELY_ALPHA` -/
  diffDown : D → Nat → D
  /-- `_rtt_diff / _min_rtt` -/
  gradient : D → Nat → D
  /-- `_rate + TIMELY_DELTA` -/
  rateUp : Nat → D
  /-- `_rate * (1 - TIMELY_BETA * (1 - q))` -/
  rateDown : Nat → Nat → D
  /-- `(1 - weight) * TIMELY_DELTA + _rate * (1 - 0.008L * weight * error)`, with `weight`
      the gradient doubled, raised by 0.5 and cut to `[0, 1]`, and `error` the excess over
      `T_LOW` -/
  ratePatched : Nat → D → Nat → D
  /-- `llround` -/
  round : D → Nat
  /-- `new_rate > n` -/
  above : D → Nat → Bool
  /-- `new_rate < n` -/
  below : D → Nat → Bool
  /-- `llround(_rate * timeAsSec(_min_rtt) / 8)` -/
  bdp : Nat → Nat → Nat
  /-- `timeFromSec((MSS_BYTES * 8.0) / _rate)` -/
  segmentTime : Nat → Nat

/-- `T_LOW`. -/
def tLow : Nat := timeFromUs 20

/-- `T_HIGH`. -/
def tHigh : Nat := timeFromUs 100

/-- The initial and the greatest `_rate`. -/
def maxRate : Nat := 10000000000

/-- `llround`.  The conversion of what is not a number gives `LONG_MIN`. -/
def llroundExt : ExtRat → Nat
  | .fin q => llround q
  | _ => 2 ^ 63

/-- `TimelyFloat` in exact arithmetic. -/
def exactTimely : TimelyFloat ExtRat where
  zero := .fin 0
  diffUp := fun diff rise => diff * .fin (1 - 1 / 50) + .fin (rise * (1 / 50))
  diffDown := fun diff fall => diff * .fin (1 - 1 / 50) - .fin (fall * (1 / 50))
  gradient := fun diff rtt => diff / (rtt : Rat)
  rateUp := fun rate => .fin (rate + 10000000)
  rateDown := fun rate q => .fin (rate * (1 - 4 / 5 * (1 - q)))
  ratePatched := fun rate gradient excess =>
    let weight := ExtRat.clip 0 1 (.fin 2 * gradient + .fin (1 / 2))
    (.fin 1 - weight) * .fin 10000000 +
      .fin rate * (.fin 1 - .fin (8 / 1000) * weight * .fin (excess / tLow))
  round := llroundExt
  above := fun newRate n => decide (.fin n < newRate)
  below := fun newRate n => decide (newRate < .fin n)
  bdp := fun rate rtt => llround (rate * (rtt / 10 ^ 12) / 8)
  segmentTime := fun rate =>
    llroundExt (ExtRat.fin (MSS_BYTES * 8) / (rate : Rat) * ExtRat.fin (10 ^ 12))

/-- `TimelySrc`. -/
structure TimelySrc (D : Type) extends PacedSource where
  rate : Nat
  prevRtt : Nat
  rttDiff : D
  rttGradient : D
  lastRttBytes : Nat

namespace TimelySrc

variable {D : Type} (float : TimelyFloat D)

/-- The constructor, and `connect`. -/
def new (flowsize duration startTime endtime : Nat) : TimelySrc D where
  toPacedSource := PacedSource.new flowsize duration startTime endtime
  rate := maxRate
  prevRtt := 0
  rttDiff := float.zero
  rttGradient := float.zero
  lastRttBytes := 0

/-! ## Sending -/

/-- The limit is in flight. -/
def Blocked (s : PacedSource) : Prop :=
  s.bdpEstimate ≠ 0 ∧ s.bdpLimit ≤ sub64 s.highestSent s.lastAcked

instance (s : PacedSource) : Decidable (Blocked s) := inferInstanceAs (Decidable (_ ∧ _))

/-- `TimelySrc::sendPackets`. -/
def sendPackets (now : Nat) (s : PacedSource) : PacedSource :=
  if s.AllSent then s
  else if Blocked s then s
  else (s.sendNext now false).armRto now

/-! ## Events -/

/-- The first event. -/
def start (s : PacedSource) : PacedSource :=
  { s with highestSent := 0, lastAcked := 0, bdpEstimate := 8 * MSS_BYTES, state := .normal }

/-- What `doNextEvent` ends with. -/
def goOn (now : Nat) (s : TimelySrc D) : TimelySrc D :=
  let p := if s.state ≠ .finish then sendPackets now s.toPacedSource else s.toPacedSource
  { s with
    toPacedSource :=
      { p with toDataSource := p.sourceIsPending (now + float.segmentTime s.rate) } }

/-- `TimelySrc::doNextEvent`. -/
def doNextEvent (now nPackets : Nat) (s : TimelySrc D) : Option (TimelySrc D) :=
  if s.state = .idle then some (goOn float now { s with toPacedSource := start s.toPacedSource })
  else if s.state = .finish then
    -- a finished flow goes on having events until its packets have drained
    if nPackets = 0 then none else some (goOn float now s)
  else if s.rtoTimeout ≠ 0 ∧ s.rtoTimeout ≤ now then
    some (goOn float now { s with toPacedSource := s.timeout now })
  else some (goOn float now s)

/-! ## Acks -/

/-- The update of the RTT estimates; the first RTT is its own predecessor. -/
def updateRtt (now ts : Nat) (s : TimelySrc D) : TimelySrc D :=
  { s with
    toPacedSource := s.toPacedSource.updateRtt now ts
    prevRtt := if sub64 now ts ≠ 0 ∧ s.rtt = 0 then sub64 now ts else s.prevRtt }

/-- The update of the gradient. -/
def updateGradient (newRtt : Nat) (s : TimelySrc D) : TimelySrc D :=
  let rttDiff :=
    if s.prevRtt < newRtt then float.diffUp s.rttDiff (newRtt - s.prevRtt)
    else float.diffDown s.rttDiff (s.prevRtt - newRtt)
  { s with
    rttDiff := rttDiff
    prevRtt := newRtt
    rttGradient := float.gradient rttDiff s.minRtt }

/-- `new_rate`.  `T_HIGH / new_rtt` is a division of integers. -/
def newRate (newRtt : Nat) (s : TimelySrc D) : D :=
  if newRtt < tLow then float.rateUp s.rate
  else if tHigh < newRtt then float.rateDown s.rate (tHigh / newRtt)
  else float.ratePatched s.rate s.rttGradient (newRtt - tLow)

/-- `_rate`, from `new_rate`. -/
def rateOf (newRate : D) : Nat :=
  let rate := if float.above newRate maxRate then maxRate else float.round newRate
  -- in the source, too, the bound is half of the rate just assigned
  if float.below newRate (rate / 2) then rate / 2 else rate

/-- The update of the rate, once per window. -/
def updateRate (newRtt : Nat) (s : TimelySrc D) : TimelySrc D :=
  if s.lastRttBytes + s.bdpEstimate < s.lastAcked then
    let rate := rateOf float (newRate float newRtt s)
    { s with
      rate := rate
      bdpEstimate := float.bdp rate s.minRtt
      lastRttBytes := s.lastAcked }
  else s

/-- What an ack that is taken does to the estimates, before it is processed. -/
def updateEstimates (now : Nat) (a : DataAck) (s : TimelySrc D) : TimelySrc D :=
  updateRate float (sub64 now a.ts)
    (updateGradient float (sub64 now a.ts) (updateRtt now a.ts s))

/-- `TimelySrc::receivePacket`. -/
def receivePacket (now : Nat) (a : DataAck) (s : TimelySrc D) : TimelySrc D :=
  if s.state = .finish then s
  else if s.Completes now a.ackno then { s with state := .finish }
  else if a.ackno < s.lastAcked then s
  else
    let s' := updateEstimates float now a s
    { s' with toPacedSource := s'.processAck now a.ackno }

end TimelySrc

/-- `TimelySink`. -/
abbrev TimelySink := DataSink

/-- `TimelySink::receivePacket`. -/
def TimelySink.receivePacket (p : DataPacket) (k : TimelySink) : TimelySink × DataAck :=
  let d := k.processDataPacket p
  (d, { seqno := 1, ackno := d.cumulativeAck, ts := p.ts })

namespace TimelySrc

/-! ## A `TimelySrc` is a sender -/

variable {D : Type} {float : TimelyFloat D} {ack : Option Nat} {now : Nat} {b : DataSource}

theorem sendPackets_moves {s : PacedSource} (h : DataSource.Moves ack b s.toDataSource) :
    DataSource.Moves ack b (sendPackets now s).toDataSource := by
  simp only [sendPackets]
  split_ifs with hall
  · exact h
  · exact h
  · rw [PacedSource.armRto_source]
    exact PacedSource.sendNext_moves h hall

@[simp] theorem sendPackets_state (s : PacedSource) :
    (sendPackets now s).state = s.state := by
  simp only [sendPackets]
  split_ifs
  · rfl
  · rfl
  · exact PacedSource.armRto_state _

theorem goOn_moves {s : TimelySrc D} (h : DataSource.Moves ack b s.toDataSource) :
    DataSource.Moves ack b (goOn float now s).toDataSource := by
  simp only [goOn]
  refine DataSource.Moves.trans ?_ (DataSource.moves_sourceIsPending _ _)
  split_ifs
  · exact sendPackets_moves h
  · exact h

@[simp] theorem goOn_state (s : TimelySrc D) : (goOn float now s).state = s.state := by
  simp only [goOn]
  split_ifs
  · exact sendPackets_state _
  · rfl

theorem doNextEvent_moves {nPackets : Nat} {s t : TimelySrc D}
    (h : doNextEvent float now nPackets s = some t) :
    DataSource.Moves none s.toDataSource t.toDataSource := by
  unfold doNextEvent at h
  split_ifs at h
  · cases h
    exact goOn_moves DataSource.Move.restart.moves
  · cases h
    exact goOn_moves (DataSource.Moves.refl _)
  · cases h
    exact goOn_moves (PacedSource.timeout_moves s.toPacedSource)
  · cases h
    exact goOn_moves (DataSource.Moves.refl _)

@[simp] theorem updateEstimates_source (a : DataAck) (s : TimelySrc D) :
    (updateEstimates float now a s).toDataSource = s.toDataSource := by
  simp only [updateEstimates, updateRate]
  split_ifs
  · exact PacedSource.updateRtt_source _ _
  · exact PacedSource.updateRtt_source _ _

@[simp] theorem updateEstimates_state (a : DataAck) (s : TimelySrc D) :
    (updateEstimates float now a s).state = s.state := by
  simp only [updateEstimates, updateRate]
  split_ifs
  · exact PacedSource.updateRtt_state _ _
  · exact PacedSource.updateRtt_state _ _

/-- An ack that neither ends the flow nor comes from the past. -/
theorem receivePacket_eq {a : DataAck} {s : TimelySrc D} (hstate : s.state ≠ .finish)
    (hgo : ¬ s.Completes now a.ackno) (hnew : s.lastAcked ≤ a.ackno) :
    (receivePacket float now a s).toPacedSource =
      (updateEstimates float now a s).processAck now a.ackno := by
  rw [receivePacket, if_neg hstate, if_neg hgo, if_neg (Nat.not_lt_of_le hnew)]

/-- An ack from the past. -/
theorem receivePacket_old {a : DataAck} {s : TimelySrc D} (hstate : s.state ≠ .finish)
    (hgo : ¬ s.Completes now a.ackno) (hold : a.ackno < s.lastAcked) :
    receivePacket float now a s = s := by
  rw [receivePacket, if_neg hstate, if_neg hgo, if_pos hold]

theorem receivePacket_moves {a : DataAck} {s : TimelySrc D} (hstate : s.state ≠ .finish)
    (hgo : ¬ s.Completes now a.ackno) :
    DataSource.Moves (some a.ackno) s.toDataSource
      (receivePacket float now a s).toDataSource := by
  rcases Nat.lt_or_ge a.ackno s.lastAcked with hold | hnew
  · rw [receivePacket_old hstate hgo hold]
    exact DataSource.Moves.refl _
  · -- the estimates are not part of the sender
    have hsame : (updateEstimates float now a s).toDataSource = s.toDataSource :=
      updateEstimates_source a s
    rw [receivePacket_eq hstate hgo hnew, ← hsame]
    apply PacedSource.processAck_moves
    rw [updateEstimates_source]
    unfold DataSource.Completes at hgo
    omega

theorem doNextEvent_open {nPackets : Nat} {s t : TimelySrc D} (hstate : s.state ≠ .finish)
    (h : doNextEvent float now nPackets s = some t) : t.state ≠ .finish := by
  simp only [doNextEvent, if_neg hstate] at h
  split_ifs at h
  · cases h
    rw [goOn_state]
    exact nofun
  · cases h
    rw [goOn_state]
    show (s.toPacedSource.timeout now).state ≠ .finish
    rw [PacedSource.timeout_state]
    exact nofun
  · cases h
    rw [goOn_state]
    exact hstate

theorem receivePacket_open {a : DataAck} {s : TimelySrc D} (hstate : s.state ≠ .finish)
    (hgo : ¬ s.Completes now a.ackno) : (receivePacket float now a s).state ≠ .finish := by
  rcases Nat.lt_or_ge a.ackno s.lastAcked with hold | hnew
  · rw [receivePacket_old hstate hgo hold]
    exact hstate
  · rw [receivePacket_eq hstate hgo hnew]
    rcases PacedSource.processAck_state now a.ackno
      (updateEstimates float now a s).toPacedSource with h | h | ⟨h, -⟩
    · rw [h]
      exact nofun
    · rw [h]
      exact nofun
    · rw [h, updateEstimates_state]
      exact hstate

/-- An ack that completes the flow ends it, and it stays so. -/
theorem receivePacket_ends {a : DataAck} {s : TimelySrc D}
    (h : s.state = .finish ∨ s.Completes now a.ackno) :
    (receivePacket float now a s).state = .finish := by
  by_cases hstate : s.state = .finish
  · rw [receivePacket, if_pos hstate]
    exact hstate
  · rw [receivePacket, if_neg hstate, if_pos (h.resolve_left hstate)]

theorem doNextEvent_ends {nPackets : Nat} {s t : TimelySrc D} (hstate : s.state = .finish)
    (h : doNextEvent float now nPackets s = some t) : t.state = .finish := by
  have hidle : s.state ≠ .idle := by
    rw [hstate]
    exact nofun
  simp only [doNextEvent, if_neg hidle, if_pos hstate] at h
  split_ifs at h
  cases h
  rw [goOn_state]
  exact hstate

/-- A finished flow, or an ack that finishes it. -/
theorem receivePacket_stop {a : DataAck} {s : TimelySrc D}
    (h : s.state = .finish ∨ s.Completes now a.ackno) :
    (receivePacket float now a s).toDataSource = s.toDataSource := by
  by_cases hstate : s.state = .finish
  · rw [receivePacket, if_pos hstate]
  · rw [receivePacket, if_neg hstate, if_pos (h.resolve_left hstate)]

end TimelySrc

/-- TIMELY as the two ends of a flow. -/
def timelyEndhost {D : Type} (float : TimelyFloat D) : Endhost (TimelySrc D) TimelySink where
  newSrc := TimelySrc.new float
  newSink := DataSink.new
  source := fun s => s.toDataSource
  setSource := fun s b => { s with toDataSource := b }
  finished := fun s => decide (s.state = .finish)
  doNextEvent := TimelySrc.doNextEvent float
  receivePacket := TimelySrc.receivePacket float
  dataSink := id
  sinkReceive := fun _ p k => TimelySink.receivePacket p k
  source_newSrc := fun _ _ _ _ => rfl
  finished_newSrc := fun _ _ _ _ => rfl
  dataSink_newSink := rfl
  source_setSource := fun _ _ => rfl
  finished_setSource := fun _ _ => rfl
  event_moves := fun _ _ _ _ h => TimelySrc.doNextEvent_moves h
  event_open := fun _ _ _ _ h hs =>
    decide_eq_false (TimelySrc.doNextEvent_open (of_decide_eq_false hs) h)
  receive_stop := fun _ _ s h => TimelySrc.receivePacket_stop (by rwa [decide_eq_true_eq] at h)
  receive_moves := fun _ _ s h hgo =>
    TimelySrc.receivePacket_moves (of_decide_eq_false h) hgo
  receive_open := fun _ _ _ h hgo =>
    decide_eq_false (TimelySrc.receivePacket_open (of_decide_eq_false h) hgo)
  sink_receive := fun _ _ _ => rfl
  sink_ackno := fun _ _ _ => rfl

end Htsim
end DatacenterNetworking
