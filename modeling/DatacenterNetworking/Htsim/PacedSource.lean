/-
  DatacenterNetworking.Htsim.PacedSource

  What `PacketPairSrc` and `TimelySrc` have in common.  Both send at an estimated
  rate and limit what is in flight by an estimate of the bandwidth-delay product.
  Their timeouts, retransmissions, RTT estimates and ack processing are the same
  code (`packetpair.cpp`, `timely.cpp`); it is here once.

  `_dupacks` is 16-bit and wraps.  Sums that limit what is in flight are not
  reduced.
-/

import DatacenterNetworking.Htsim.DataSource

namespace DatacenterNetworking
namespace Htsim

/-- `FlowStatus` of both sources; `TimelySrc` has no `STARTUP`. -/
inductive PacedStatus where
  | idle
  | startup
  | normal
  | recovery
  | finish
  deriving DecidableEq, Repr

/-- The fields of both sources that this code uses. -/
structure PacedSource extends DataSource where
  state : PacedStatus
  recoverSeq : Nat
  dupacks : Nat
  bdpEstimate : Nat
  rtt : Nat
  rto : Nat
  mdev : Nat
  minRtt : Nat
  rtoTimeout : Nat
  deriving DecidableEq, Repr

namespace PacedSource

/-- The constructor, and `connect`. -/
def new (flowsize duration startTime endtime : Nat) : PacedSource where
  toDataSource := DataSource.new flowsize duration startTime endtime
  state := .idle
  recoverSeq := 0
  dupacks := 0
  bdpEstimate := 0
  rtt := 0
  rto := initRto
  mdev := 0
  minRtt := 2 ^ 64 - 1
  rtoTimeout := 0

/-! ## Sending -/

/-- Start the retransmission timer if it is not running.  The sum `now + _rto` is taken to be below
    `2 ^ 64`. -/
def armRto (now : Nat) (s : PacedSource) : PacedSource :=
  if s.rtoTimeout = 0 then { s with rtoTimeout := now + s.rto } else s

/-- The limit of the bytes in flight. -/
def bdpLimit (s : PacedSource) : Nat := s.bdpEstimate + s.bdpEstimate / 2 + s.dupacks * MSS_BYTES

/-- The next segment is sent. -/
def sendNext (now : Nat) (ppFirst : Bool) (s : PacedSource) : PacedSource :=
  { s with
    toDataSource :=
      { s.sendOn { DataPacket.newpkt (s.highestSent + 1) now with ppFirst := ppFirst } with
        highestSent := s.highestSent + MSS_BYTES } }

/-- `retransmitPacket`. -/
def retransmitPacket (now : Nat) (s : PacedSource) : PacedSource :=
  let b := s.sendOn (DataPacket.newpkt (s.lastAcked + 1) now)
  armRto now
    { s with
      toDataSource :=
        if s.lastAcked = s.highestSent then { b with highestSent := s.highestSent + MSS_BYTES }
        else b }

/-- The retransmission timeout of `doNextEvent`, with `now` and the doubled `_rto` below `2 ^ 64` in
    sum. -/
def timeout (now : Nat) (s : PacedSource) : PacedSource :=
  retransmitPacket now
    { s with
      recoverSeq := s.highestSent
      highestSent := s.lastAcked + MSS_BYTES
      dupacks := 0
      state := .normal
      rto := s.rto * 2
      rtoTimeout := now + s.rto * 2 }

/-! ## Acks -/

/-- The update of `_min_rtt`, `_rtt`, `_mdev` and `_rto`. -/
def updateRtt (now ts : Nat) (s : PacedSource) : PacedSource :=
  let newRtt := sub64 now ts
  let s₁ := { s with minRtt := min newRtt s.minRtt }
  if newRtt ≠ 0 then
    let diff := if s.rtt < newRtt then newRtt - s.rtt else s.rtt - newRtt
    let mdev := if 0 < s.rtt then 3 * s.mdev / 4 + diff / 4 else newRtt / 2
    let rtt := if 0 < s.rtt then 7 * s.rtt / 8 + newRtt / 8 else newRtt
    { s₁ with rtt := rtt, mdev := mdev, rto := max (rtt + 4 * mdev) minRto }
  else s₁

/-- A brand new ack: the timer stops when it is for everything sent. -/
def takeAck (now ackno : Nat) (s : PacedSource) : PacedSource :=
  { s with
    lastAcked := ackno
    rtoTimeout := if ackno = s.highestSent then 0 else now + s.rto }

/-- The processing of a brand new ack. -/
def newAck (now ackno : Nat) (s : PacedSource) : PacedSource :=
  let bytesAcked := sub64 ackno s.lastAcked
  let s₁ := takeAck now ackno s
  if s₁.state ≠ .recovery then { s₁ with dupacks := 0 }
  else if ackno < s₁.recoverSeq then
    -- probably more than one packet was dropped
    retransmitPacket now
      { s₁ with dupacks := u16 (sub64 s₁.dupacks (bytesAcked / MSS_BYTES) + 1) }
  else { s₁ with dupacks := 0, state := .normal }

/-- The processing of a duplicate ack. -/
def dupAck (now : Nat) (s : PacedSource) : PacedSource :=
  let s₁ := { s with dupacks := u16 (s.dupacks + 1) }
  if s₁.state = .recovery then s₁
  else if s₁.dupacks ≠ 3 ∨ s₁.lastAcked < s₁.recoverSeq then s₁
  else retransmitPacket now { s₁ with state := .recovery, recoverSeq := s₁.highestSent }

/-- The ack processing of `receivePacket`. -/
def processAck (now ackno : Nat) (s : PacedSource) : PacedSource :=
  if s.lastAcked < ackno then newAck now ackno s else dupAck now s

/-! ## The moves they make -/

section

variable {ack : Option Nat} {now : Nat} {b : DataSource}

@[simp] theorem armRto_source (s : PacedSource) :
    (armRto now s).toDataSource = s.toDataSource := by
  simp only [armRto]
  split_ifs <;> rfl

@[simp] theorem armRto_state (s : PacedSource) : (armRto now s).state = s.state := by
  simp only [armRto]
  split_ifs <;> rfl

@[simp] theorem updateRtt_source (ts : Nat) (s : PacedSource) :
    (updateRtt now ts s).toDataSource = s.toDataSource := by
  simp only [updateRtt]
  split_ifs <;> rfl

@[simp] theorem updateRtt_state (ts : Nat) (s : PacedSource) :
    (updateRtt now ts s).state = s.state := by
  simp only [updateRtt]
  split_ifs <;> rfl

theorem retransmitPacket_source (s : PacedSource) :
    (retransmitPacket now s).toDataSource =
      if s.lastAcked = s.highestSent then
        { s.sendOn (DataPacket.newpkt (s.lastAcked + 1) now) with
          highestSent := s.highestSent + MSS_BYTES }
      else s.sendOn (DataPacket.newpkt (s.lastAcked + 1) now) := by
  simp only [retransmitPacket, armRto_source]

@[simp] theorem retransmitPacket_state (s : PacedSource) :
    (retransmitPacket now s).state = s.state :=
  armRto_state _

@[simp] theorem timeout_state (s : PacedSource) : (timeout now s).state = .normal :=
  retransmitPacket_state _

theorem sendNext_moves {ppFirst : Bool} {s : PacedSource}
    (h : DataSource.Moves ack b s.toDataSource) (hroom : ¬ s.AllSent) :
    DataSource.Moves ack b (sendNext now ppFirst s).toDataSource :=
  h.trans (DataSource.Move.send rfl rfl hroom).moves

theorem retransmitPacket_moves {s : PacedSource} (h : DataSource.Moves ack b s.toDataSource) :
    DataSource.Moves ack b (retransmitPacket now s).toDataSource := by
  rw [retransmitPacket_source]
  split_ifs with htop
  · exact h.trans (DataSource.Move.resendTop rfl rfl htop).moves
  · exact h.trans (DataSource.Move.resend rfl rfl).moves

theorem timeout_moves (s : PacedSource) :
    DataSource.Moves none s.toDataSource (timeout now s).toDataSource :=
  retransmitPacket_moves DataSource.Move.timeout.moves

theorem newAck_moves {ackno : Nat} {s : PacedSource} (hlow : s.lastAcked ≤ ackno)
    (hflow : 0 < s.flowsize → ackno < s.flowsize) :
    DataSource.Moves (some ackno) s.toDataSource (newAck now ackno s).toDataSource := by
  -- every branch takes the ack first
  have htake : DataSource.Moves (some ackno) s.toDataSource (takeAck now ackno s).toDataSource :=
    (DataSource.Move.ack hlow hflow).moves
  simp only [newAck]
  split_ifs
  · exact htake
  · exact retransmitPacket_moves htake
  · exact htake

theorem dupAck_moves (s : PacedSource) :
    DataSource.Moves ack s.toDataSource (dupAck now s).toDataSource := by
  simp only [dupAck]
  split_ifs
  · exact DataSource.Moves.refl _
  · exact DataSource.Moves.refl _
  · exact retransmitPacket_moves (DataSource.Moves.refl _)

theorem processAck_moves {ackno : Nat} {s : PacedSource}
    (hflow : 0 < s.flowsize → ackno < s.flowsize) :
    DataSource.Moves (some ackno) s.toDataSource (processAck now ackno s).toDataSource := by
  simp only [processAck]
  split_ifs with hnew
  · exact newAck_moves hnew.le hflow
  · exact dupAck_moves s

/-- The states an ack leads to.  If it leaves the state as it is, outside of recovery, it has
    sent nothing. -/
theorem processAck_state (now ackno : Nat) (s : PacedSource) :
    (processAck now ackno s).state = .normal ∨ (processAck now ackno s).state = .recovery ∨
      ((processAck now ackno s).state = s.state ∧
        (processAck now ackno s).highestSent = s.highestSent ∧
        (processAck now ackno s).sent = s.sent ∧
        (processAck now ackno s).pending = s.pending) := by
  simp only [processAck, newAck, dupAck]
  split_ifs with _ hstate
  · exact Or.inr (Or.inr ⟨rfl, rfl, rfl, rfl⟩)
  · -- only in recovery is a segment sent again
    have hrec : (takeAck now ackno s).state = .recovery := not_not.mp hstate
    right
    left
    rw [retransmitPacket_state]
    exact hrec
  · exact Or.inl rfl
  · exact Or.inr (Or.inr ⟨rfl, rfl, rfl, rfl⟩)
  · exact Or.inr (Or.inr ⟨rfl, rfl, rfl, rfl⟩)
  · right
    left
    rw [retransmitPacket_state]

/-- An ack beyond `_highest_sent` stays beyond it: a retransmission moves `_highest_sent`
    only when it is equal to `_last_acked`. -/
theorem processAck_overtaken {ackno : Nat} {s : PacedSource} (hle : s.lastAcked ≤ s.highestSent)
    (hlt : s.highestSent < ackno) :
    (processAck now ackno s).highestSent < (processAck now ackno s).lastAcked := by
  rw [processAck, if_pos (hle.trans_lt hlt)]
  simp only [newAck]
  split_ifs
  · exact hlt
  · have hne : (takeAck now ackno s).lastAcked ≠ (takeAck now ackno s).highestSent :=
      Nat.ne_of_gt hlt
    rw [retransmitPacket_source, if_neg hne]
    exact hlt
  · exact hlt

end

end PacedSource
end Htsim
end DatacenterNetworking
