/-
  DatacenterNetworking.Htsim.InFlight

  `PacketPairSrc` and `TimelySrc` stop sending when `_highest_sent - _last_acked`
  reaches their limit.  The subtraction is one of 64-bit values: it is the number
  of bytes in flight only as long as no ack overtakes `_highest_sent`.

  `inFlightOk_iff_noOvertake`: in the runs of either source the limit works
  exactly as long as no ack beyond `_highest_sent` is taken.  A timeout makes such
  acks possible, since it sets `_highest_sent` back.

  For `PacketPairSrc` the startup needs care: there, sending may come between the
  arrival of an ack and its processing.
-/

import DatacenterNetworking.Htsim.PacketPair
import DatacenterNetworking.Htsim.Timely

namespace DatacenterNetworking
namespace Htsim

/-- What the in-flight limit of a source relies on. -/
structure InFlightOk (b : DataSource) (blocked : Prop) : Prop where
  le : b.lastAcked ≤ b.highestSent
  /-- the difference is the number of bytes in flight -/
  exact : sub64 b.highestSent b.lastAcked + b.lastAcked = b.highestSent
  /-- with nothing in flight the source may send -/
  free : b.highestSent = b.lastAcked → ¬ blocked

theorem inFlightOk_iff {b : DataSource} {blocked : Prop}
    (hfree : b.highestSent = b.lastAcked → ¬ blocked) :
    InFlightOk b blocked ↔ b.lastAcked ≤ b.highestSent :=
  ⟨fun h => h.le, fun h => ⟨h, sub64_add h, hfree⟩⟩

theorem PacketPairSrc.not_blocked {s : PacedSource} (h : s.highestSent = s.lastAcked) :
    ¬ PacketPairSrc.Blocked s := by
  rintro ⟨-, hlt⟩
  rw [h, sub64_self] at hlt
  exact Nat.not_lt_zero _ hlt

theorem TimelySrc.not_blocked {s : PacedSource} (h : s.highestSent = s.lastAcked) :
    ¬ TimelySrc.Blocked s := by
  rintro ⟨hpos, hle⟩
  rw [h, sub64_self] at hle
  unfold PacedSource.bdpLimit at hle
  omega

/-! ## The startup of `PacketPairSrc` -/

namespace PacketPairSrc

variable {D : Type} {float : PairFloat D} {now : Nat}

/-- `_highest_sent` throughout the startup: a pair, or less if the flow is shorter. -/
def startupHighest (flowsize : Nat) : Nat :=
  if 0 < flowsize ∧ flowsize ≤ MSS_BYTES then MSS_BYTES else 2 * MSS_BYTES

/-- Up to its first estimate the source has sent the first pair only, if anything, and the
    event list holds nothing but its next start. -/
structure StartupInv (s : PacketPairSrc D) : Prop where
  idle : s.state = .idle → s.sent = [] ∧ s.pending.length ≤ 1
  startup : s.state = .startup →
    s.highestSent = startupHighest s.flowsize ∧
      (∀ e ∈ s.sent, e.pkt.seqno + MSS_BYTES ≤ startupHighest s.flowsize + 1) ∧
      s.pending.length ≤ 1 ∧ ∀ w ∈ s.pending, w = s.firstRto

theorem startupInv_of_state {s : PacketPairSrc D} (hidle : s.state ≠ .idle)
    (hstartup : s.state ≠ .startup) : StartupInv s :=
  ⟨fun h => absurd h hidle, fun h => absurd h hstartup⟩

/-- The first pair. -/
theorem transmitPacketPair_zero (now : Nat) {s : PacedSource} (hhigh : s.highestSent = 0)
    (hlow : s.lastAcked = 0) :
    (transmitPacketPair now s).highestSent = startupHighest s.flowsize ∧
      (transmitPacketPair now s).flowsize = s.flowsize ∧
      (transmitPacketPair now s).pending = s.pending ∧
      ∀ e ∈ (transmitPacketPair now s).sent,
        e ∈ s.sent ∨ e.pkt.seqno + MSS_BYTES ≤ startupHighest s.flowsize + 1 := by
  have hall : ¬ s.AllSent := by
    simp only [DataSource.AllSent]
    omega
  have hfree : ¬ Blocked s := not_blocked (hhigh.trans hlow.symm)
  have hone : ((s.sendNext now true).armRto now).toDataSource =
      (s.sendNext now true).toDataSource := PacedSource.armRto_source _
  -- nothing has been sent, so the first packet is segment 0
  have hfirst : ∀ e ∈ (s.sendNext now true).sent,
      e ∈ s.sent ∨ e.pkt.seqno + MSS_BYTES = MSS_BYTES + 1 := by
    intro e he
    rcases DataSource.mem_sendOn he with he | rfl
    · exact Or.inl he
    · right
      show s.highestSent + 1 + MSS_BYTES = MSS_BYTES + 1
      omega
  simp only [transmitPacketPair, if_neg hall, if_neg hfree]
  have hhigh' : (s.sendNext now true).highestSent = MSS_BYTES := by
    show s.highestSent + MSS_BYTES = MSS_BYTES
    omega
  by_cases hshort : 0 < s.flowsize ∧ s.flowsize ≤ MSS_BYTES
  · -- one segment is the whole flow
    have hdone : ((s.sendNext now true).armRto now).AllSent := by
      rw [hone]
      simp only [DataSource.AllSent]
      rw [hhigh']
      exact hshort
    have htop : startupHighest s.flowsize = MSS_BYTES := if_pos hshort
    rw [if_pos hdone, hone, htop]
    refine ⟨hhigh', rfl, rfl, fun e he => ?_⟩
    rcases hfirst e he with he | he
    · exact Or.inl he
    · exact Or.inr he.le
  · -- both packets of the pair are sent
    have hmore : ¬ ((s.sendNext now true).armRto now).AllSent := by
      rw [hone]
      simp only [DataSource.AllSent]
      rw [hhigh']
      exact hshort
    have htop : startupHighest s.flowsize = 2 * MSS_BYTES := if_neg hshort
    rw [if_neg hmore, htop]
    have hnext : (((s.sendNext now true).armRto now).sendNext now false).toDataSource =
        { (s.sendNext now true).sendOn
            { DataPacket.newpkt ((s.sendNext now true).highestSent + 1) now with
              ppFirst := false } with
          highestSent := (s.sendNext now true).highestSent + MSS_BYTES } := by
      rw [← hone]
      rfl
    rw [hnext, hhigh']
    refine ⟨(Nat.two_mul _).symm, rfl, rfl, fun e he => ?_⟩
    rcases DataSource.mem_sendOn he with he | rfl
    · rcases hfirst e he with he | he
      · exact Or.inl he
      · exact Or.inr (by omega)
    · right
      show MSS_BYTES + 1 + MSS_BYTES ≤ 2 * MSS_BYTES + 1
      omega

/-- A start, with nothing in the event list. -/
theorem startupInv_start {s : PacketPairSrc D} (hpending : s.pending = [])
    (hsent : ∀ e ∈ s.sent, e.pkt.seqno + MSS_BYTES ≤ startupHighest s.flowsize + 1) :
    StartupInv (start now s) := by
  obtain ⟨hhigh, hflow, hpend, hnew⟩ := transmitPacketPair_zero now
    (s := { s.toPacedSource with highestSent := 0, lastAcked := 0, bdpEstimate := 2 * MSS_BYTES })
    rfl rfl
  have hp := hpend.trans hpending
  -- the next start is the only event
  obtain ⟨hflow', -, hhigh', -, hsent', hone⟩ := DataSource.sourceIsPending_spec
    (transmitPacketPair now
      { s.toPacedSource with highestSent := 0, lastAcked := 0, bdpEstimate := 2 * MSS_BYTES }
      ).toDataSource (now + s.rto)
  obtain ⟨hlen, hnext⟩ := hone hp
  refine ⟨nofun, fun _ => ⟨?_, fun e he => ?_, hlen, hnext⟩⟩
  · show (DataSource.sourceIsPending _ _).highestSent =
      startupHighest (DataSource.sourceIsPending _ _).flowsize
    rw [hhigh', hflow', hflow]
    exact hhigh
  · show e.pkt.seqno + MSS_BYTES ≤ startupHighest (DataSource.sourceIsPending _ _).flowsize + 1
    replace he : e ∈ (DataSource.sourceIsPending _ _).sent := he
    rw [hsent'] at he
    rw [hflow', hflow]
    rcases hnew e he with he | he
    · exact hsent e he
    · exact he

theorem startupInv_doNextEvent {nPackets : Nat} {s t : PacketPairSrc D}
    (hpending : s.state = .idle ∨ s.state = .startup → s.pending = [])
    (hidle : s.state = .idle → s.sent = [])
    (hstartup : s.state = .startup → now = s.firstRto ∧
      ∀ e ∈ s.sent, e.pkt.seqno + MSS_BYTES ≤ startupHighest s.flowsize + 1)
    (h : doNextEvent float now nPackets s = some t) : StartupInv t := by
  unfold doNextEvent at h
  -- only in the startup is there something to show
  split_ifs at h with hstart hfin hfree htimeout
  · -- a start: the first, or one more when the first gap has not arrived in time
    cases h
    rcases hstart with hst | ⟨hst, -⟩
    · refine startupInv_start (hpending (Or.inl hst)) fun e he => ?_
      rw [hidle hst] at he
      exact absurd he List.not_mem_nil
    · exact startupInv_start (hpending (Or.inr hst)) (hstartup hst).2
  · cases h
    apply startupInv_of_state
    · rw [goOn_state, hfin]
      exact nofun
    · rw [goOn_state, hfin]
      exact nofun
  · cases h
    have hnormal : (goOn float now { s with toPacedSource := s.timeout now }).state = .normal := by
      rw [goOn_state]
      exact PacedSource.timeout_state _
    apply startupInv_of_state
    · rw [hnormal]
      exact nofun
    · rw [hnormal]
      exact nofun
  · -- past the startup: there, the event is a start
    cases h
    rw [not_or, not_and] at hstart
    apply startupInv_of_state
    · rw [goOn_state]
      exact hstart.1
    · rw [goOn_state]
      exact fun hst => hstart.2 hst (hstartup hst).1

@[simp] theorem updateEstimates_firstRto (a : DataAck) (s : PacketPairSrc D) :
    (updateEstimates float now a s).firstRto = s.firstRto := by
  simp only [updateEstimates, updateAlpha]
  split_ifs <;> rfl

@[simp] theorem takeGap_firstRto (pktpairdiff : Nat) (s : PacketPairSrc D) :
    (takeGap float now pktpairdiff s).firstRto = s.firstRto := by
  have hrate : (updateRate float pktpairdiff s).firstRto = s.firstRto := by
    simp only [updateRate]
    split_ifs <;> rfl
  simp only [takeGap]
  split_ifs
  · exact hrate
  · exact hrate
  · rfl

@[simp] theorem receivePacket_firstRto (a : DataAck) (s : PacketPairSrc D) :
    (receivePacket float now a s).firstRto = s.firstRto := by
  simp only [receivePacket]
  split_ifs
  · rfl
  · rfl
  · rfl
  · show (takeGap float now a.seqno (updateEstimates float now a s)).firstRto = s.firstRto
    rw [takeGap_firstRto, updateEstimates_firstRto]

/-- An ack that leaves the source in its startup sends nothing. -/
theorem receivePacket_startup {a : DataAck} {s : PacketPairSrc D}
    (h : (receivePacket float now a s).state = .idle ∨
      (receivePacket float now a s).state = .startup) :
    (receivePacket float now a s).state = s.state ∧
      (receivePacket float now a s).highestSent = s.highestSent ∧
      (receivePacket float now a s).sent = s.sent ∧
      (receivePacket float now a s).pending = s.pending ∧
      (receivePacket float now a s).flowsize = s.flowsize := by
  -- what the status cannot be
  have hnormal : ∀ st : PacedStatus, st = .idle ∨ st = .startup → st ≠ .normal ∧
      st ≠ .recovery ∧ st ≠ .finish := by
    rintro st (rfl | rfl)
    · exact ⟨nofun, nofun, nofun⟩
    · exact ⟨nofun, nofun, nofun⟩
  by_cases hstate : s.state = .finish
  · rw [receivePacket, if_pos hstate] at h
    exact absurd hstate (hnormal _ h).2.2
  by_cases hends : s.Completes now a.ackno
  · rw [receivePacket, if_neg hstate, if_pos hends] at h
    exact absurd rfl (hnormal _ h).2.2
  rcases Nat.lt_or_ge a.ackno s.lastAcked with hold | hnew
  · rw [receivePacket_old hstate hends hold]
    exact ⟨rfl, rfl, rfl, rfl, rfl⟩
  · have hflow : (receivePacket float now a s).flowsize = s.flowsize :=
      (receivePacket_moves hstate hends).grown.flowsize
    rw [receivePacket_eq hstate hends hnew] at h hflow ⊢
    rcases PacedSource.processAck_state now a.ackno
      (takeGap float now a.seqno (updateEstimates float now a s)).toPacedSource
      with hst | hst | ⟨hst, hhigh, hsent, hpend⟩
    · exact absurd hst (hnormal _ h).1
    · exact absurd hst (hnormal _ h).2.1
    · -- the ack changed no status, and neither did the gap
      rcases takeGap_state float now a.seqno
        (updateEstimates float now a s) with ⟨-, hgap⟩ | ⟨hgap, hsrc⟩
      · rw [hst, hgap] at h
        exact absurd rfl (hnormal _ h).1
      · rw [updateEstimates_state] at hgap
        rw [updateEstimates_source] at hsrc
        rw [hsrc] at hhigh hsent hpend
        exact ⟨hst.trans hgap, hhigh, hsent, hpend, hflow⟩

theorem startupInv_receivePacket {a : DataAck} {s : PacketPairSrc D} (h : StartupInv s) :
    StartupInv (receivePacket float now a s) := by
  constructor
  · intro hst
    obtain ⟨hstate, -, hsent, hpend, -⟩ := receivePacket_startup (Or.inl hst)
    rw [hsent, hpend]
    exact h.idle (hstate.symm.trans hst)
  · intro hst
    obtain ⟨hstate, hhigh, hsent, hpend, hflow⟩ := receivePacket_startup (Or.inr hst)
    rw [hhigh, hsent, hpend, hflow, receivePacket_firstRto]
    exact h.startup (hstate.symm.trans hst)

end PacketPairSrc

/-! ## Both sources -/

namespace Flow

section Generic

variable {S K : Type} {E : Endhost S K}

/-- Taking an ack beyond `_highest_sent` leaves the source overtaken. -/
def Overtakes (E : Endhost S K) (J : Flow S K → Prop) : Prop :=
  ∀ s p, J s → (E.source s.src).lastAcked ≤ (E.source s.src).highestSent → p ∈ s.acks →
    s.Takes E p → (E.source s.src).highestSent < p.ackno →
      (E.source (E.receivePacket s.now p s.src)).highestSent <
        (E.source (E.receivePacket s.now p s.src)).lastAcked

/-- For such a source a step keeps `_last_acked <= _highest_sent` exactly when no ack
    overtakes it in that step. -/
theorem le_step_iff {J : Flow S K → Prop} (hover : Overtakes E J) {s t : Flow S K} {a : Act}
    (hJ : J s) (hle : (E.source s.src).lastAcked ≤ (E.source s.src).highestSent)
    (hstep : step E s a = some t) :
    (E.source t.src).lastAcked ≤ (E.source t.src).highestSent ↔ s.NoOvertake E a := by
  refine ⟨fun ht => ?_, fun hguard => le_step hle hguard hstep⟩
  by_contra hnot
  obtain ⟨i, p, rfl, hp, htakes, hlt⟩ := overtaken hnot
  rw [deliverAck_src hp hstep] at ht
  exact Nat.not_lt_of_le ht (hover s p hJ hle (List.mem_of_getElem? hp) htakes hlt)

/-- The limit of such a source works in a run exactly when no ack overtakes it there. -/
theorem inFlightOk_iff_of_overtakes {J : Flow S K → Prop} (hover : Overtakes E J)
    (hJ : ∀ s a t, J s → (system E).step s a = some t → J t) {blocked : S → Prop}
    (hfree : ∀ s, (E.source s).highestSent = (E.source s).lastAcked → ¬ blocked s)
    {s : Flow S K} (h₀ : J s) (hle : (E.source s.src).lastAcked ≤ (E.source s.src).highestSent)
    (acts : List Act) :
    (system E).Always (fun t => InFlightOk (E.source t.src) (blocked t.src)) s acts ↔
      (system E).Along (NoOvertake E) s acts := by
  refine Lts.always_iff_along hJ (fun t a u ht hok hstep => ?_) acts h₀
    ((inFlightOk_iff (hfree _)).mpr hle)
  rw [inFlightOk_iff (hfree _)]
  exact le_step_iff hover ht hok.le hstep

end Generic

/-- `TimelySrc` processes an ack before it sends. -/
theorem timely_overtakes {D : Type} (float : TimelyFloat D) :
    Overtakes (timelyEndhost float) fun _ => True := by
  intro s p _ hle _ htakes hlt
  show (TimelySrc.receivePacket float s.now p s.src).highestSent <
    (TimelySrc.receivePacket float s.now p s.src).lastAcked
  replace hle : s.src.lastAcked ≤ s.src.highestSent := hle
  replace hlt : s.src.highestSent < p.ackno := hlt
  rw [TimelySrc.receivePacket_eq (of_decide_eq_false htakes.1) htakes.2 (hle.trans hlt.le)]
  apply PacedSource.processAck_overtaken
  · rw [TimelySrc.updateEstimates_source]
    exact hle
  · rw [TimelySrc.updateEstimates_source]
    exact hlt

section Pair

variable {D : Type} {float : PairFloat D}

/-- What holds of a `PacketPairSrc` in every run. -/
structure PairInv (float : PairFloat D) (s : Flow (PacketPairSrc D) PacketPairSink) : Prop where
  inv : Inv (packetPairEndhost float) s
  startup : s.src.StartupInv

theorem pairInv_init (flowsize duration startTime endtime : Nat) :
    PairInv float (init (packetPairEndhost float) flowsize duration startTime endtime) where
  inv := inv_init flowsize duration startTime endtime
  startup := by
    refine ⟨fun _ => ?_, nofun⟩
    obtain ⟨-, -, -, -, hsent, hone⟩ := DataSource.new_spec flowsize duration startTime endtime
    exact ⟨hsent, hone⟩

/-- Taking an event out of the event list. -/
theorem startupInv_popEvent {s : Flow (PacketPairSrc D) PacketPairSink}
    (h : s.src.StartupInv) (time : Nat) :
    (s.popEvent (packetPairEndhost float) time).src.StartupInv := by
  have hlen : (s.src.pending.erase time).length ≤ s.src.pending.length :=
    List.length_erase_le
  constructor
  · intro hst
    obtain ⟨hsent, hone⟩ := h.idle hst
    exact ⟨hsent, hlen.trans hone⟩
  · intro hst
    obtain ⟨hhigh, hsent, hone, hpend⟩ := h.startup hst
    exact ⟨hhigh, hsent, hlen.trans hone, fun w hw => hpend w (List.mem_of_mem_erase hw)⟩

theorem pairInv_step (s : Flow (PacketPairSrc D) PacketPairSink) (a : Act)
    (t : Flow (PacketPairSrc D) PacketPairSink) (h : PairInv float s)
    (hstep : (system (packetPairEndhost float)).step s a = some t) : PairInv float t := by
  refine ⟨inv_step s a t h.inv hstep, ?_⟩
  cases stepped hstep with
  | data => exact h.startup
  | network => exact h.startup
  | @event time src hmin _ hnext =>
    -- up to the first estimate this was the only event
    have hmem : time ∈ s.src.pending := List.min?_mem hmin
    have hnone : s.src.pending.length ≤ 1 → s.src.pending.erase time = [] := by
      intro hone
      apply List.eq_nil_of_length_eq_zero
      rw [List.length_erase_of_mem hmem]
      omega
    refine PacketPairSrc.startupInv_doNextEvent ?_ ?_ ?_ hnext
    · rintro (hst | hst)
      · exact hnone (h.startup.idle hst).2
      · exact hnone (h.startup.startup hst).2.2.1
    · exact fun hst => (h.startup.idle hst).1
    · intro hst
      obtain ⟨-, hsent, -, hpend⟩ := h.startup.startup hst
      exact ⟨hpend time hmem, hsent⟩
  | deleted => exact startupInv_popEvent h.startup _
  | ack => exact PacketPairSrc.startupInv_receivePacket h.startup

/-- In the startup no ack is beyond `_highest_sent`: the sink has the first pair at most. -/
theorem ackno_le_of_startup {s : Flow (PacketPairSrc D) PacketPairSink} (h : PairInv float s)
    (hst : s.src.state = .idle ∨ s.src.state = .startup) {p : DataAck} (hp : p ∈ s.acks) :
    p.ackno ≤ s.src.highestSent := by
  have hsent : ∀ e ∈ s.src.sent, e.pkt.seqno + MSS_BYTES ≤ s.src.highestSent + 1 := by
    intro e he
    rcases hst with hst | hst
    · rw [(h.startup.idle hst).1] at he
      exact absurd he List.not_mem_nil
    · obtain ⟨hhigh, hbound, -⟩ := h.startup.startup hst
      rw [hhigh]
      exact hbound e he
  have hsound : ((packetPairEndhost float).dataSink s.sink).Sound s.rcvd := by
    rw [h.inv.sink]
    exact sound_processAll DataSink.sound_new
  have hack := (h.inv.acks p hp).2
  rcases Nat.eq_zero_or_pos p.ackno with hzero | hpos
  · omega
  · -- the last byte acked has reached the sink in a segment
    obtain ⟨q, hq, hlow, hhigh⟩ := hsound.covered p.ackno hpos hack
    obtain ⟨e, he, hseq, hsize⟩ := h.inv.rcvd q hq
    obtain ⟨-, -, hmss⟩ := h.inv.segmented.sent e he
    have hbound := hsent e he
    omega

theorem pair_overtakes (float : PairFloat D) :
    Overtakes (packetPairEndhost float) (PairInv float) := by
  intro s p h hle hp htakes hlt
  show (PacketPairSrc.receivePacket float s.now p s.src).highestSent <
    (PacketPairSrc.receivePacket float s.now p s.src).lastAcked
  replace hle : s.src.lastAcked ≤ s.src.highestSent := hle
  replace hlt : s.src.highestSent < p.ackno := hlt
  -- the startup is over, so that no segment is sent before the ack is processed
  have hover : s.src.state ≠ .startup := fun hst =>
    Nat.not_lt_of_le (ackno_le_of_startup h (Or.inr hst) hp) hlt
  have hgap : (PacketPairSrc.takeGap float s.now p.seqno
      (PacketPairSrc.updateEstimates float s.now p s.src)).toDataSource =
        s.src.toDataSource := by
    rcases PacketPairSrc.takeGap_state float s.now p.seqno
      (PacketPairSrc.updateEstimates float s.now p s.src) with ⟨hst, -⟩ | ⟨-, hsrc⟩
    · rw [PacketPairSrc.updateEstimates_state] at hst
      exact absurd hst hover
    · rw [hsrc, PacketPairSrc.updateEstimates_source]
  rw [PacketPairSrc.receivePacket_eq (of_decide_eq_false htakes.1) htakes.2 (hle.trans hlt.le)]
  apply PacedSource.processAck_overtaken
  · rw [hgap]
    exact hle
  · rw [hgap]
    exact hlt

end Pair

/-- The in-flight limit of either source works in a run exactly when no ack that it takes
    is beyond `_highest_sent`. -/
theorem inFlightOk_iff_noOvertake {D₁ D₂ : Type} (pair : PairFloat D₁) (timely : TimelyFloat D₂)
    (flowsize duration startTime endtime : Nat) (acts : List Act) :
    ((system (packetPairEndhost pair)).Always
        (fun s => InFlightOk s.src.toDataSource (PacketPairSrc.Blocked s.src.toPacedSource))
        (init (packetPairEndhost pair) flowsize duration startTime endtime) acts ↔
      (system (packetPairEndhost pair)).Along (NoOvertake (packetPairEndhost pair))
        (init (packetPairEndhost pair) flowsize duration startTime endtime) acts) ∧
    ((system (timelyEndhost timely)).Always
        (fun s => InFlightOk s.src.toDataSource (TimelySrc.Blocked s.src.toPacedSource))
        (init (timelyEndhost timely) flowsize duration startTime endtime) acts ↔
      (system (timelyEndhost timely)).Along (NoOvertake (timelyEndhost timely))
        (init (timelyEndhost timely) flowsize duration startTime endtime) acts) := by
  have hahead := DataSource.ahead_new flowsize duration startTime endtime
  constructor
  · exact inFlightOk_iff_of_overtakes (pair_overtakes pair) pairInv_step
      (fun _ h => PacketPairSrc.not_blocked h) (pairInv_init flowsize duration startTime endtime)
      hahead.le acts
  · exact inFlightOk_iff_of_overtakes (timely_overtakes timely) (fun _ _ _ _ _ => trivial)
      (fun _ h => TimelySrc.not_blocked h)
      (s := init (timelyEndhost timely) flowsize duration startTime endtime) trivial
      hahead.le acts

/-! ## Runs in which an ack overtakes -/

/-- Packet pair.  After the startup two pairs are sent, of which the first segment is lost;
    the timeout sends it again, and its ack is for all four. -/
def latePairAck : List Act :=
  [.event, .advance 1000000, .deliverData 0, .advance 101000000, .deliverData 0, .deliverAck 1,
    .event, .event, .dataFault (.lose 0), .advance 600000000, .deliverData 0, .deliverData 0,
    .deliverData 0, .deliverData 0, .deliverAck 4]

/-- TIMELY.  The second segment is lost, the next two arrive, and all acks are late until
    the timeout. -/
def lateTimelyAck : List Act :=
  [.event, .event, .advance 2000000, .deliverData 0, .deliverAck 0, .event, .event,
    .dataFault (.lose 0), .advance 4000000, .deliverData 0, .deliverData 0] ++
    List.replicate 166 .event ++ [.advance 203000000, .deliverData 9, .deliverAck 2]

/-- Both sources end with more acked than `_highest_sent`, and may not send although nothing
    of theirs is missing. -/
theorem lateAck_blocks :
    (∃ t, (system (packetPairEndhost exactPair)).run
        (init (packetPairEndhost exactPair) 15000 0 0 0) latePairAck = some t ∧
      t.src.highestSent = 7500 ∧ t.src.lastAcked = 9000 ∧
      PacketPairSrc.Blocked t.src.toPacedSource) ∧
    ∃ t, (system (timelyEndhost exactTimely)).run
        (init (timelyEndhost exactTimely) 60000 0 0 0) lateTimelyAck = some t ∧
      t.src.highestSent = 4500 ∧ t.src.lastAcked = 6000 ∧
      TimelySrc.Blocked t.src.toPacedSource := by
  -- each run is executed once
  have hpair : ((system (packetPairEndhost exactPair)).run
      (init (packetPairEndhost exactPair) 15000 0 0 0) latePairAck).any (fun t => decide
        (t.src.highestSent = 7500 ∧ t.src.lastAcked = 9000 ∧
          PacketPairSrc.Blocked t.src.toPacedSource)) = true := by
    decide +kernel
  have htimely : ((system (timelyEndhost exactTimely)).run
      (init (timelyEndhost exactTimely) 60000 0 0 0) lateTimelyAck).any (fun t => decide
        (t.src.highestSent = 4500 ∧ t.src.lastAcked = 6000 ∧
          TimelySrc.Blocked t.src.toPacedSource)) = true := by
    decide +kernel
  obtain ⟨t, hrun, ht⟩ := (Option.any_eq_true _ _).mp hpair
  obtain ⟨t', hrun', ht'⟩ := (Option.any_eq_true _ _).mp htimely
  exact ⟨⟨t, hrun, of_decide_eq_true ht⟩, ⟨t', hrun', of_decide_eq_true ht'⟩⟩

end Flow
end Htsim
end DatacenterNetworking
