/-
  DatacenterNetworking.Htsim.Tcp

  `TcpSrc` and `TcpSink` (`tcp.cpp`): NewReno, with the DCTCP window when
  `_enable_dctcp` is set.

  `_ssthresh`, `_cwnd`, `_marked_pkts` and `_total_pkts` are 32-bit, `_dupacks` is
  16-bit, and they wrap here as they do there.  What DCTCP computes in floating
  point is a parameter, `DctcpFloat`.  Logging, the counters that only the log
  reads, and the packet's deadline and priority are left out.
-/

import DatacenterNetworking.Htsim.Flow

namespace DatacenterNetworking
namespace Htsim

/-- The floating-point operations on `_alpha`, a value of type `D`. -/
structure DctcpFloat (D : Type) where
  zero : D
  /-- `_alpha * (1 - DCTCP_GAIN) + (marked / total) * DCTCP_GAIN` -/
  update : D → Nat → Nat → D
  /-- `_alpha > 0` -/
  pos : D → Bool
  /-- `_cwnd * (1 - _alpha / 2)`, as a `uint32_t` -/
  scale : Nat → D → Nat

/-- `DctcpFloat` in exact arithmetic. -/
def exactDctcp : DctcpFloat Rat where
  zero := 0
  update := fun alpha marked total => alpha * (1 - 1 / 16) + marked / total * (1 / 16)
  pos := fun alpha => decide (0 < alpha)
  scale := fun cwnd alpha => (cwnd * (1 - alpha / 2)).floor.toNat

/-- The static settings of `TcpSrc`. -/
structure TcpConfig (D : Type) where
  enableDctcp : Bool
  float : DctcpFloat D

/-- The default: no DCTCP. -/
def plainTcp : TcpConfig Rat where
  enableDctcp := false
  float := exactDctcp

namespace Tcp

/-- `TcpSrc::FlowStatus`. -/
inductive FlowStatus where
  | idle
  | slowStart
  | congAvoid
  | fastRecov
  | finish
  deriving DecidableEq, Repr

end Tcp

/-- `TcpSrc`. -/
structure TcpSrc (D : Type) extends DataSource where
  state : Tcp.FlowStatus
  ssthresh : Nat
  cwnd : Nat
  recoverSeq : Nat
  dupacks : Nat
  rtt : Nat
  rto : Nat
  mdev : Nat
  rtoTimeout : Nat
  alpha : D
  markedPkts : Nat
  totalPkts : Nat
  dctcpCwnd : Nat

namespace TcpSrc

variable {D : Type} (cfg : TcpConfig D)

/-- The constructor, and `connect`. -/
def new (flowsize duration startTime endtime : Nat) : TcpSrc D where
  toDataSource := DataSource.new flowsize duration startTime endtime
  state := .idle
  ssthresh := 2 ^ 32 - 1
  cwnd := 0
  recoverSeq := 0
  dupacks := 0
  rtt := 0
  rto := initRto
  mdev := 0
  rtoTimeout := 0
  alpha := cfg.float.zero
  markedPkts := 0
  totalPkts := 0
  dctcpCwnd := 0

/-! ## Sending -/

/-- Start the retransmission timer if it is not running (RFC 2988 5.1).  The sum `now + _rto` is
    taken to be below `2 ^ 64`. -/
def armRto (now : Nat) (s : TcpSrc D) : TcpSrc D :=
  if s.rtoTimeout = 0 then { s with rtoTimeout := now + s.rto } else s

/-- The body of the loop of `sendPackets`. -/
def sendNext (now : Nat) (s : TcpSrc D) : TcpSrc D :=
  armRto now
    { s with
      toDataSource :=
        { s.sendOn (DataPacket.newpkt (s.highestSent + 1) now) with
          highestSent := s.highestSent + MSS_BYTES } }

/-- The loop of `sendPackets`, for at most `fuel` rounds. -/
def sendLoop (now : Nat) : Nat → TcpSrc D → TcpSrc D
  | 0, s => s
  | fuel + 1, s =>
      if s.highestSent + MSS_BYTES ≤ s.lastAcked + s.cwnd then
        let s' := sendNext now s
        if s'.AllSent then s' else sendLoop now fuel s'
      else s

/-- `TcpSrc::sendPackets`.  The loop sends at most what fits into the window. -/
def sendPackets (now : Nat) (s : TcpSrc D) : TcpSrc D :=
  if s.AllSent then s
  else sendLoop now ((s.lastAcked + s.cwnd - s.highestSent) / MSS_BYTES) s

/-- `TcpSrc::retransmitPacket`. -/
def retransmitPacket (now : Nat) (s : TcpSrc D) : TcpSrc D :=
  armRto now
    { s with toDataSource := s.sendOn (DataPacket.newpkt (s.lastAcked + 1) now) }

/-- `TcpSrc::inflateWindow`.  `newly_acked` is an `int` made of a 64-bit difference. -/
def inflateWindow (s : TcpSrc D) : TcpSrc D :=
  let newlyAcked := (BitVec.ofNat 32 (sub64 (s.lastAcked + s.cwnd) s.highestSent)).toInt
  if newlyAcked < 0 then s
  else
    let newlyAcked := (min newlyAcked MSS_BYTES).toNat
    -- slow start, up to the threshold; then congestion avoidance
    let increment :=
      if s.cwnd < s.ssthresh then min (s.ssthresh - s.cwnd) newlyAcked
      else max (newlyAcked * MSS_BYTES / s.cwnd) 1
    { s with cwnd := u32 (s.cwnd + increment) }

/-! ## Events -/

/-- The next periodic check. -/
def scheduleCheck (now : Nat) (s : TcpSrc D) : TcpSrc D :=
  let wait := if s.rtt ≠ 0 then s.rtt else minRto
  { s with toDataSource := s.sourceIsPending (now + wait) }

/-- The retransmission timeout, with `now` and the doubled `_rto` below `2 ^ 64` in sum. -/
def timeout (now : Nat) (s : TcpSrc D) : TcpSrc D :=
  let cwnd :=
    if s.state = .fastRecov then
      min s.ssthresh (u32 (u32 (sub64 s.highestSent s.lastAcked) + MSS_BYTES))
    else s.cwnd
  retransmitPacket now
    { s with
      ssthresh := max (cwnd / 2) (MSS_BYTES * 2)
      cwnd := MSS_BYTES
      state := .slowStart
      recoverSeq := s.highestSent
      highestSent := s.lastAcked + MSS_BYTES
      dupacks := 0
      rto := s.rto * 2
      rtoTimeout := now + s.rto * 2 }

/-- `TcpSrc::doNextEvent`. -/
def doNextEvent (now nPackets : Nat) (s : TcpSrc D) : Option (TcpSrc D) :=
  if s.state = .idle then
    -- the first transmission
    let s' := { s with state := .slowStart, cwnd := 2 * MSS_BYTES, dctcpCwnd := 2 * MSS_BYTES }
    some (scheduleCheck now (sendPackets now s'))
  else if s.state = .finish then
    -- the flow deletes itself once its packets have drained
    if nPackets = 0 then none else some (scheduleCheck now s)
  else if s.rtoTimeout ≠ 0 ∧ s.rtoTimeout ≤ now then some (scheduleCheck now (timeout now s))
  else some (scheduleCheck now s)

/-! ## Acks -/

/-- The update of `_rtt` and `_rto`. -/
def updateRtt (now ts : Nat) (s : TcpSrc D) : TcpSrc D :=
  let m := sub64 now ts
  if 0 < m then
    let abs := if s.rtt < m then m - s.rtt else s.rtt - m
    let mdev := if 0 < s.rtt then s.mdev * 3 / 4 + abs / 4 else m / 2
    let rtt := if 0 < s.rtt then s.rtt * 7 / 8 + m / 8 else m
    { s with rtt := rtt, mdev := mdev, rto := max (rtt + 4 * mdev) minRto }
  else s

/-- The ECN counters. -/
def countMark (ecnRev : Bool) (s : TcpSrc D) : TcpSrc D :=
  let s₁ :=
    if ecnRev then
      let s' := { s with markedPkts := u32 (s.markedPkts + 1) }
      -- slow start ends at the first mark
      if s.state = .slowStart ∧ s.cwnd < s.ssthresh then
        { s' with state := .congAvoid, ssthresh := s.cwnd }
      else s'
    else s
  { s₁ with totalPkts := u32 (s₁.totalPkts + 1) }

/-- `_alpha` and `_cwnd` at the end of a window of data. -/
def updateAlpha (s : TcpSrc D) : TcpSrc D :=
  let alpha := cfg.float.update s.alpha s.markedPkts s.totalPkts
  let s₁ := { s with alpha := alpha, markedPkts := 0, totalPkts := 0 }
  let s₂ :=
    if cfg.float.pos alpha then
      let cwnd := max (cfg.float.scale s.cwnd alpha) MSS_BYTES
      { s₁ with cwnd := cwnd, ssthresh := cwnd }
    else s₁
  { s₂ with dctcpCwnd := if s₂.state ≠ .fastRecov then s₂.cwnd else s₂.ssthresh }

/-- The DCTCP part of `receivePacket`. -/
def updateDctcp (ecnRev : Bool) (s : TcpSrc D) : TcpSrc D :=
  if cfg.enableDctcp then
    let s' := countMark ecnRev s
    if s'.dctcpCwnd < u32 (s'.totalPkts * MSS_BYTES) then updateAlpha cfg s' else s'
  else s

/-- The timer at a new ack: it stops when everything sent is acked (RFC 2988 5.2, 5.3). -/
def restartTimer (now ackno : Nat) (s : TcpSrc D) : TcpSrc D :=
  { s with rtoTimeout := if ackno = s.highestSent then 0 else now + s.rto }

/-- An ack of a part of the recovery window deflates the window. -/
def deflateWindow (ackno : Nat) (s : TcpSrc D) : TcpSrc D :=
  let newData := u32 (sub64 ackno s.lastAcked)
  let cwnd := if newData < s.cwnd then s.cwnd - newData else 0
  { s with cwnd := u32 (cwnd + MSS_BYTES) }

/-- A brand new ack. -/
def newAck (now ackno : Nat) (s : TcpSrc D) : TcpSrc D :=
  let s₁ := restartTimer now ackno s
  if s₁.state ≠ .fastRecov then
    -- an ack that was expected
    sendPackets now (inflateWindow { s₁ with lastAcked := ackno, dupacks := 0 })
  else if s₁.recoverSeq ≤ ackno then
    -- the whole recovery window is acked
    let flightsize := u32 (sub64 s₁.highestSent ackno)
    sendPackets now
      { s₁ with
        cwnd := min s₁.ssthresh (u32 (flightsize + MSS_BYTES))
        lastAcked := ackno
        dupacks := 0
        state := .congAvoid }
  else
    -- more packets of the recovery window were lost
    sendPackets now (retransmitPacket now { deflateWindow ackno s₁ with lastAcked := ackno })

/-- A duplicate ack. -/
def dupAck (now : Nat) (s : TcpSrc D) : TcpSrc D :=
  if s.state = .fastRecov then sendPackets now { s with cwnd := u32 (s.cwnd + MSS_BYTES) }
  else
    let s₁ := { s with dupacks := u16 (s.dupacks + 1) }
    if s₁.dupacks ≠ 3 then sendPackets now s₁
    -- before it has recovered from a timeout the source does not retransmit (RFC 3782)
    else if s₁.lastAcked < s₁.recoverSeq then s₁
    else
      -- the third one starts fast recovery
      let ssthresh := max (s₁.cwnd / 2) (MSS_BYTES * 2)
      retransmitPacket now
        { s₁ with
          ssthresh := ssthresh
          cwnd := u32 (ssthresh + 3 * MSS_BYTES)
          state := .fastRecov
          recoverSeq := s₁.highestSent }

/-- An ack that neither ends the flow nor comes from the past. -/
def processAck (now : Nat) (a : DataAck) (s : TcpSrc D) : TcpSrc D :=
  if s.lastAcked < a.ackno then newAck now a.ackno s else dupAck now s

/-- `TcpSrc::receivePacket`. -/
def receivePacket (now : Nat) (a : DataAck) (s : TcpSrc D) : TcpSrc D :=
  if s.state = .finish then s
  else if s.Completes now a.ackno then { s with state := .finish }
  else if a.ackno < s.lastAcked then s
  else processAck now a (updateDctcp cfg a.ecnRev (updateRtt now a.ts s))

end TcpSrc

/-- `TcpSink`. -/
abbrev TcpSink := DataSink

/-- `TcpSink::receivePacket`. -/
def TcpSink.receivePacket (p : DataPacket) (k : TcpSink) : TcpSink × DataAck :=
  let d := k.processDataPacket p
  (d, { seqno := 1, ackno := d.cumulativeAck, ts := p.ts, ecnRev := p.ecnFwd })

namespace TcpSrc

/-! ## A `TcpSrc` is a sender -/

variable {D : Type} {cfg : TcpConfig D} {ack : Option Nat} {now : Nat} {b : DataSource}

@[simp] theorem armRto_source (s : TcpSrc D) :
    (armRto now s).toDataSource = s.toDataSource := by
  simp only [armRto]
  split_ifs <;> rfl

@[simp] theorem inflateWindow_source (s : TcpSrc D) :
    (inflateWindow s).toDataSource = s.toDataSource := by
  simp only [inflateWindow]
  split_ifs <;> rfl

@[simp] theorem updateRtt_source (ts : Nat) (s : TcpSrc D) :
    (updateRtt now ts s).toDataSource = s.toDataSource := by
  simp only [updateRtt]
  split_ifs <;> rfl

@[simp] theorem countMark_source (ecnRev : Bool) (s : TcpSrc D) :
    (countMark ecnRev s).toDataSource = s.toDataSource := by
  simp only [countMark]
  split_ifs <;> rfl

@[simp] theorem updateAlpha_source (s : TcpSrc D) :
    (updateAlpha cfg s).toDataSource = s.toDataSource := by
  simp only [updateAlpha]
  split_ifs <;> rfl

@[simp] theorem updateDctcp_source (ecnRev : Bool) (s : TcpSrc D) :
    (updateDctcp cfg ecnRev s).toDataSource = s.toDataSource := by
  simp only [updateDctcp]
  split_ifs <;> simp

@[simp] theorem sendNext_source (s : TcpSrc D) :
    (sendNext now s).toDataSource =
      { s.sendOn (DataPacket.newpkt (s.highestSent + 1) now) with
        highestSent := s.highestSent + MSS_BYTES } :=
  armRto_source _

@[simp] theorem retransmitPacket_source (s : TcpSrc D) :
    (retransmitPacket now s).toDataSource =
      s.sendOn (DataPacket.newpkt (s.lastAcked + 1) now) :=
  armRto_source _

theorem sendLoop_moves (fuel : Nat) {s : TcpSrc D} (h : DataSource.Moves ack b s.toDataSource)
    (hroom : ¬ s.AllSent) : DataSource.Moves ack b (sendLoop now fuel s).toDataSource := by
  induction fuel generalizing s with
  | zero => exact h
  | succ fuel ih =>
    -- there is room for a round, since the loop ends once all is sent
    have hsend : DataSource.Moves ack b (sendNext now s).toDataSource := by
      rw [sendNext_source]
      exact h.trans (DataSource.Move.send rfl rfl hroom).moves
    simp only [sendLoop]
    split_ifs with hfits hall
    · exact hsend
    · exact ih hsend hall
    · exact h

theorem sendPackets_moves {s : TcpSrc D} (h : DataSource.Moves ack b s.toDataSource) :
    DataSource.Moves ack b (sendPackets now s).toDataSource := by
  simp only [sendPackets]
  split_ifs with hall
  · exact h
  · exact sendLoop_moves _ h hall

theorem retransmitPacket_moves {s : TcpSrc D} (h : DataSource.Moves ack b s.toDataSource) :
    DataSource.Moves ack b (retransmitPacket now s).toDataSource := by
  rw [retransmitPacket_source]
  exact h.trans (DataSource.Move.resend rfl rfl).moves

theorem scheduleCheck_moves {s : TcpSrc D} (h : DataSource.Moves ack b s.toDataSource) :
    DataSource.Moves ack b (scheduleCheck now s).toDataSource :=
  h.trans (DataSource.moves_sourceIsPending _ _)

theorem timeout_moves (s : TcpSrc D) :
    DataSource.Moves none s.toDataSource (timeout now s).toDataSource :=
  retransmitPacket_moves DataSource.Move.timeout.moves

theorem doNextEvent_moves {nPackets : Nat} {s t : TcpSrc D}
    (h : doNextEvent now nPackets s = some t) :
    DataSource.Moves none s.toDataSource t.toDataSource := by
  simp only [doNextEvent] at h
  split_ifs at h
  · cases h
    apply scheduleCheck_moves
    apply sendPackets_moves
    exact DataSource.Moves.refl _
  · cases h
    exact scheduleCheck_moves (DataSource.Moves.refl _)
  · cases h
    exact scheduleCheck_moves (timeout_moves s)
  · cases h
    exact scheduleCheck_moves (DataSource.Moves.refl _)

theorem newAck_moves {ackno : Nat} {s : TcpSrc D} (hlow : s.lastAcked ≤ ackno)
    (hflow : 0 < s.flowsize → ackno < s.flowsize) :
    DataSource.Moves (some ackno) s.toDataSource (newAck now ackno s).toDataSource := by
  -- every branch takes the ack before it sends
  have htake : DataSource.Moves (some ackno) s.toDataSource
      { s.toDataSource with lastAcked := ackno } :=
    (DataSource.Move.ack hlow hflow).moves
  simp only [newAck]
  split_ifs
  · apply sendPackets_moves
    rw [inflateWindow_source]
    exact htake
  · exact sendPackets_moves htake
  · exact sendPackets_moves (retransmitPacket_moves htake)

theorem dupAck_moves (s : TcpSrc D) :
    DataSource.Moves ack s.toDataSource (dupAck now s).toDataSource := by
  simp only [dupAck]
  split_ifs
  · exact sendPackets_moves (DataSource.Moves.refl _)
  · exact sendPackets_moves (DataSource.Moves.refl _)
  · exact DataSource.Moves.refl _
  · exact retransmitPacket_moves (DataSource.Moves.refl _)

theorem processAck_moves {a : DataAck} {s : TcpSrc D}
    (hflow : 0 < s.flowsize → a.ackno < s.flowsize) :
    DataSource.Moves (some a.ackno) s.toDataSource (processAck now a s).toDataSource := by
  simp only [processAck]
  split_ifs with hnew
  · exact newAck_moves hnew.le hflow
  · exact dupAck_moves s

/-- What an ack that is taken finds: only the counters of congestion control differ. -/
theorem receivePacket_eq {a : DataAck} {s : TcpSrc D} (hstate : s.state ≠ .finish)
    (hgo : ¬ s.Completes now a.ackno) :
    receivePacket cfg now a s =
      if a.ackno < s.lastAcked then s
      else processAck now a (updateDctcp cfg a.ecnRev (updateRtt now a.ts s)) := by
  rw [receivePacket, if_neg hstate, if_neg hgo]

theorem receivePacket_moves {a : DataAck} {s : TcpSrc D} (hstate : s.state ≠ .finish)
    (hgo : ¬ s.Completes now a.ackno) :
    DataSource.Moves (some a.ackno) s.toDataSource (receivePacket cfg now a s).toDataSource := by
  have hflow : 0 < s.flowsize → a.ackno < s.flowsize := by
    unfold DataSource.Completes at hgo
    omega
  rw [receivePacket_eq hstate hgo]
  split_ifs
  · exact DataSource.Moves.refl _
  · -- the estimates are not part of the sender
    have hsame : (updateDctcp cfg a.ecnRev (updateRtt now a.ts s)).toDataSource =
        s.toDataSource := by simp
    rw [← hsame] at hflow ⊢
    exact processAck_moves hflow

/-! ## When a `TcpSrc` finishes -/

@[simp] theorem armRto_state (s : TcpSrc D) : (armRto now s).state = s.state := by
  simp only [armRto]
  split_ifs <;> rfl

@[simp] theorem sendLoop_state (fuel : Nat) (s : TcpSrc D) :
    (sendLoop now fuel s).state = s.state := by
  induction fuel generalizing s with
  | zero => rfl
  | succ fuel ih =>
    have hsend : (sendNext now s).state = s.state := armRto_state _
    simp only [sendLoop]
    split_ifs
    · exact hsend
    · rw [ih, hsend]
    · rfl

@[simp] theorem sendPackets_state (s : TcpSrc D) : (sendPackets now s).state = s.state := by
  simp only [sendPackets]
  split_ifs
  · rfl
  · exact sendLoop_state _ s

@[simp] theorem retransmitPacket_state (s : TcpSrc D) :
    (retransmitPacket now s).state = s.state :=
  armRto_state _

@[simp] theorem inflateWindow_state (s : TcpSrc D) : (inflateWindow s).state = s.state := by
  simp only [inflateWindow]
  split_ifs <;> rfl

@[simp] theorem restartTimer_state (ackno : Nat) (s : TcpSrc D) :
    (restartTimer now ackno s).state = s.state := rfl

@[simp] theorem deflateWindow_state (ackno : Nat) (s : TcpSrc D) :
    (deflateWindow ackno s).state = s.state := by
  simp only [deflateWindow]

@[simp] theorem updateRtt_state (ts : Nat) (s : TcpSrc D) :
    (updateRtt now ts s).state = s.state := by
  simp only [updateRtt]
  split_ifs <;> rfl

@[simp] theorem updateAlpha_state (s : TcpSrc D) : (updateAlpha cfg s).state = s.state := by
  simp only [updateAlpha]
  split_ifs <;> rfl

theorem countMark_open {ecnRev : Bool} {s : TcpSrc D} (h : s.state ≠ .finish) :
    (countMark ecnRev s).state ≠ .finish := by
  simp only [countMark]
  split_ifs
  · exact nofun
  · exact h
  · exact h

theorem updateDctcp_open {ecnRev : Bool} {s : TcpSrc D} (h : s.state ≠ .finish) :
    (updateDctcp cfg ecnRev s).state ≠ .finish := by
  simp only [updateDctcp]
  split_ifs
  · rw [updateAlpha_state]
    exact countMark_open h
  · exact countMark_open h
  · exact h

theorem doNextEvent_open {nPackets : Nat} {s t : TcpSrc D} (hstate : s.state ≠ .finish)
    (h : doNextEvent now nPackets s = some t) : t.state ≠ .finish := by
  simp only [doNextEvent, if_neg hstate] at h
  split_ifs at h
  · cases h
    show (sendPackets now _).state ≠ .finish
    rw [sendPackets_state]
    exact nofun
  · cases h
    show (timeout now s).state ≠ .finish
    simp only [timeout, retransmitPacket_state]
    exact nofun
  · cases h
    exact hstate

theorem processAck_open {a : DataAck} {s : TcpSrc D} (hstate : s.state ≠ .finish) :
    (processAck now a s).state ≠ .finish := by
  simp only [processAck, newAck, dupAck]
  -- the branches of `newAck`, then those of `dupAck`
  split_ifs
  · simpa only [sendPackets_state, inflateWindow_state, restartTimer_state] using hstate
  · rw [sendPackets_state]
    exact nofun
  · simpa only [sendPackets_state, retransmitPacket_state, deflateWindow_state,
      restartTimer_state] using hstate
  · rw [sendPackets_state]
    exact hstate
  · rw [sendPackets_state]
    exact hstate
  · exact hstate
  · rw [retransmitPacket_state]
    exact nofun

/-- Only an ack that ends the flow finishes it. -/
theorem receivePacket_open {a : DataAck} {s : TcpSrc D} (hstate : s.state ≠ .finish)
    (hgo : ¬ s.Completes now a.ackno) : (receivePacket cfg now a s).state ≠ .finish := by
  rw [receivePacket_eq hstate hgo]
  split_ifs
  · exact hstate
  · apply processAck_open
    apply updateDctcp_open
    rw [updateRtt_state]
    exact hstate

/-- An ack that completes the flow ends it, and it stays so. -/
theorem receivePacket_ends {a : DataAck} {s : TcpSrc D}
    (h : s.state = .finish ∨ s.Completes now a.ackno) :
    (receivePacket cfg now a s).state = .finish := by
  by_cases hstate : s.state = .finish
  · rw [receivePacket, if_pos hstate]
    exact hstate
  · rw [receivePacket, if_neg hstate, if_pos (h.resolve_left hstate)]

theorem doNextEvent_ends {nPackets : Nat} {s t : TcpSrc D} (hstate : s.state = .finish)
    (h : doNextEvent now nPackets s = some t) : t.state = .finish := by
  have hidle : s.state ≠ .idle := by
    rw [hstate]
    exact nofun
  simp only [doNextEvent, if_neg hidle, if_pos hstate] at h
  split_ifs at h
  cases h
  exact hstate

/-- A finished flow, or an ack that finishes it. -/
theorem receivePacket_stop {a : DataAck} {s : TcpSrc D}
    (h : s.state = .finish ∨ s.Completes now a.ackno) :
    (receivePacket cfg now a s).toDataSource = s.toDataSource := by
  by_cases hstate : s.state = .finish
  · rw [receivePacket, if_pos hstate]
  · rw [receivePacket, if_neg hstate, if_pos (h.resolve_left hstate)]

/-- The loop stops when nothing more fits into the window, or all is sent. -/
theorem sendLoop_done {s : TcpSrc D} {fuel : Nat}
    (hfuel : (s.lastAcked + s.cwnd - s.highestSent) / MSS_BYTES ≤ fuel) :
    (sendLoop now fuel s).AllSent ∨
      (sendLoop now fuel s).lastAcked + (sendLoop now fuel s).cwnd <
        (sendLoop now fuel s).highestSent + MSS_BYTES := by
  have hpos : 0 < MSS_BYTES := by decide
  -- the window counted in segments bounds the rounds
  induction fuel generalizing s with
  | zero =>
    have hlt := (Nat.div_eq_zero_iff_lt hpos).mp (Nat.le_zero.mp hfuel)
    right
    show s.lastAcked + s.cwnd < s.highestSent + MSS_BYTES
    omega
  | succ fuel ih =>
    simp only [sendLoop]
    split_ifs with hfits hall
    · exact Or.inl hall
    · -- one segment less fits into the window
      apply ih
      have hcwnd : (sendNext now s).cwnd = s.cwnd := by
        simp only [sendNext, armRto]
        split_ifs <;> rfl
      rw [hcwnd, sendNext_source]
      show (s.lastAcked + s.cwnd - (s.highestSent + MSS_BYTES)) / MSS_BYTES ≤ fuel
      rw [Nat.sub_add_eq]
      have hsub := Nat.sub_mul_div (s.lastAcked + s.cwnd - s.highestSent) MSS_BYTES 1
      rw [Nat.mul_one] at hsub
      omega
    · exact Or.inr (Nat.lt_of_not_le hfits)

/-- `sendPackets` uses the whole window: its loop does not run out of rounds. -/
theorem sendPackets_done (s : TcpSrc D) :
    (sendPackets now s).AllSent ∨
      (sendPackets now s).lastAcked + (sendPackets now s).cwnd <
        (sendPackets now s).highestSent + MSS_BYTES := by
  simp only [sendPackets]
  split_ifs with hall
  · exact Or.inl hall
  · exact sendLoop_done le_rfl

end TcpSrc

/-- TCP as the two ends of a flow. -/
def tcpEndhost {D : Type} (cfg : TcpConfig D) : Endhost (TcpSrc D) TcpSink where
  newSrc := TcpSrc.new cfg
  newSink := DataSink.new
  source := TcpSrc.toDataSource
  setSource := fun s b => { s with toDataSource := b }
  finished := fun s => decide (s.state = .finish)
  doNextEvent := TcpSrc.doNextEvent
  receivePacket := TcpSrc.receivePacket cfg
  dataSink := id
  sinkReceive := fun _ p k => TcpSink.receivePacket p k
  source_newSrc := fun _ _ _ _ => rfl
  finished_newSrc := fun _ _ _ _ => rfl
  dataSink_newSink := rfl
  source_setSource := fun _ _ => rfl
  finished_setSource := fun _ _ => rfl
  event_moves := fun _ _ _ _ h => TcpSrc.doNextEvent_moves h
  event_open := fun _ _ _ _ h hs =>
    decide_eq_false (TcpSrc.doNextEvent_open (of_decide_eq_false hs) h)
  receive_stop := fun _ _ s h => TcpSrc.receivePacket_stop (by rwa [decide_eq_true_eq] at h)
  receive_moves := fun _ _ s h hgo =>
    TcpSrc.receivePacket_moves (of_decide_eq_false h) hgo
  receive_open := fun _ _ _ h hgo =>
    decide_eq_false (TcpSrc.receivePacket_open (of_decide_eq_false h) hgo)
  sink_receive := fun _ _ _ => rfl
  sink_ackno := fun _ _ _ => rfl

end Htsim
end DatacenterNetworking
