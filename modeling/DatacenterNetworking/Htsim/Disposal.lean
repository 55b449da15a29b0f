/-
  DatacenterNetworking.Htsim.Disposal

  When a source may delete itself.  It does so in an event of its own, once
  `_flow._nPackets` is zero, and no other event of it may be in the event list.

  `Disposal` is what is needed of a source for that.  A `TcpSrc` and a `TimelySrc`
  have one event at most.  A `PacketPairSrc` may have two: one at `_first_rto`, and one
  of the chain that the first estimate starts.  It deletes itself after `_first_rto`
  only.
-/

import DatacenterNetworking.Htsim.PairPending
import DatacenterNetworking.Htsim.Tcp
import DatacenterNetworking.Htsim.Timely

namespace DatacenterNetworking
namespace Htsim

/-- The source, with its event at `time` taken out of the event list. -/
def Endhost.taken {S K : Type} (E : Endhost S K) (s : S) (time : Nat) : S :=
  E.setSource s { E.source s with pending := (E.source s).pending.erase time }

/-- What holds of a source between its events, so that the event in which it deletes itself is
    the last one. -/
structure Disposal {S K : Type} (E : Endhost S K) where
  Tidy : S → Prop
  tidy_new (flowsize duration startTime endtime : Nat) :
    Tidy (E.newSrc flowsize duration startTime endtime)
  tidy_event {nPackets time : Nat} {s t : S} (h : Tidy s)
    (hmin : (E.source s).pending.min? = some time)
    (hnext : E.doNextEvent time nPackets (E.taken s time) = some t) : Tidy t
  tidy_receive {now : Nat} {a : DataAck} {s : S} (h : Tidy s) : Tidy (E.receivePacket now a s)
  deletes {nPackets time : Nat} {s : S} (h : Tidy s)
    (hmin : (E.source s).pending.min? = some time)
    (hnext : E.doNextEvent time nPackets (E.taken s time) = none) :
    nPackets = 0 ∧ (E.source s).pending.erase time = []

/-- An event is scheduled, or it is beyond the end time. -/
theorem DataSource.pending_cases (b : DataSource) (time : Nat) :
    (b.sourceIsPending time).pending = b.pending ∨
      (b.sourceIsPending time).pending = b.pending ++ [time] := by
  simp only [sourceIsPending]
  split_ifs
  · exact Or.inr rfl
  · exact Or.inl rfl

/-- The only event there is. -/
theorem erase_eq_nil {l : List Nat} {time : Nat} (hmin : l.min? = some time)
    (hone : l.length ≤ 1) : l.erase time = [] := by
  have hmem : time ∈ l := List.min?_mem hmin
  apply List.eq_nil_of_length_eq_zero
  rw [List.length_erase_of_mem hmem]
  omega

/-- One event is scheduled by a source that had none. -/
theorem DataSource.pending_le_one {b : DataSource} (h : b.pending = []) (time : Nat) :
    (b.sourceIsPending time).pending.length ≤ 1 :=
  ((sourceIsPending_spec b time).2.2.2.2.2 h).1

/-! ## `TcpSrc` -/

namespace TcpSrc

variable {D : Type} {cfg : TcpConfig D} {now : Nat}

theorem sendLoop_pending (fuel : Nat) (s : TcpSrc D) :
    (sendLoop now fuel s).pending = s.pending := by
  induction fuel generalizing s with
  | zero => rfl
  | succ fuel ih =>
    have hnext : (sendNext now s).pending = s.pending := by
      rw [sendNext_source]
      rfl
    simp only [sendLoop]
    split_ifs
    · exact hnext
    · exact (ih _).trans hnext
    · rfl

theorem sendPackets_pending (s : TcpSrc D) : (sendPackets now s).pending = s.pending := by
  simp only [sendPackets]
  split_ifs
  · rfl
  · exact sendLoop_pending _ s

theorem retransmitPacket_pending (s : TcpSrc D) :
    (retransmitPacket now s).pending = s.pending := by
  rw [retransmitPacket_source]
  rfl

theorem newAck_pending (ackno : Nat) (s : TcpSrc D) :
    (newAck now ackno s).pending = s.pending := by
  simp only [newAck]
  split_ifs
  · rw [sendPackets_pending, inflateWindow_source]
    rfl
  · exact sendPackets_pending _
  · rw [sendPackets_pending, retransmitPacket_pending]
    rfl

theorem dupAck_pending (s : TcpSrc D) : (dupAck now s).pending = s.pending := by
  simp only [dupAck]
  split_ifs
  · exact sendPackets_pending _
  · exact sendPackets_pending _
  · rfl
  · exact retransmitPacket_pending _

/-- Acks schedule nothing. -/
theorem receivePacket_pending (a : DataAck) (s : TcpSrc D) :
    (receivePacket cfg now a s).pending = s.pending := by
  have hestimates : (updateDctcp cfg a.ecnRev (updateRtt now a.ts s)).toDataSource =
      s.toDataSource := by
    rw [updateDctcp_source, updateRtt_source]
  simp only [receivePacket, processAck]
  split_ifs
  · rfl
  · rfl
  · rfl
  · rw [newAck_pending, hestimates]
  · rw [dupAck_pending, hestimates]

/-- The event of a source with no other schedules one. -/
theorem doNextEvent_pending {nPackets : Nat} {s t : TcpSrc D} (hnone : s.pending = [])
    (h : doNextEvent now nPackets s = some t) : t.pending.length ≤ 1 := by
  simp only [doNextEvent] at h
  split_ifs at h
  · cases h
    refine DataSource.pending_le_one ?_ _
    rw [sendPackets_pending]
    exact hnone
  · cases h
    exact DataSource.pending_le_one hnone _
  · cases h
    refine DataSource.pending_le_one ?_ _
    rw [timeout, retransmitPacket_pending]
    exact hnone
  · cases h
    exact DataSource.pending_le_one hnone _

/-- A `TcpSrc` deletes itself when no packet is left. -/
theorem doNextEvent_eq_none {nPackets : Nat} {s : TcpSrc D}
    (h : doNextEvent now nPackets s = none) : nPackets = 0 := by
  simp only [doNextEvent] at h
  split_ifs at h with _ _ hdrained
  exact hdrained

/-- A `TcpSrc` has one event at most. -/
def disposal (cfg : TcpConfig D) : Disposal (tcpEndhost cfg) where
  Tidy := fun s => s.pending.length ≤ 1
  tidy_new := fun _ _ _ _ => DataSource.pending_le_one rfl _
  tidy_event := fun h hmin hnext => doNextEvent_pending (erase_eq_nil hmin h) hnext
  tidy_receive := fun {_ _ s} h => (congrArg List.length (receivePacket_pending _ s)).trans_le h
  deletes := fun h hmin hnext => ⟨doNextEvent_eq_none hnext, erase_eq_nil hmin h⟩

end TcpSrc

/-! ## `TimelySrc` -/

namespace TimelySrc

variable {D : Type} {float : TimelyFloat D} {now : Nat}

theorem sendPackets_pending (s : PacedSource) : (sendPackets now s).pending = s.pending := by
  simp only [sendPackets]
  split_ifs
  · rfl
  · rfl
  · rw [PacedSource.armRto_source]
    rfl

theorem goOn_pending {s : TimelySrc D} (hnone : s.pending = []) :
    (goOn float now s).pending.length ≤ 1 := by
  simp only [goOn]
  refine DataSource.pending_le_one ?_ _
  split_ifs
  · rw [sendPackets_pending]
    exact hnone
  · exact hnone

/-- Acks schedule nothing. -/
theorem receivePacket_pending (a : DataAck) (s : TimelySrc D) :
    (receivePacket float now a s).pending = s.pending := by
  simp only [receivePacket]
  split_ifs
  · rfl
  · rfl
  · rfl
  · rw [PacedSource.processAck_pending, updateEstimates_source]

/-- The event of a source with no other schedules one. -/
theorem doNextEvent_pending {nPackets : Nat} {s t : TimelySrc D} (hnone : s.pending = [])
    (h : doNextEvent float now nPackets s = some t) : t.pending.length ≤ 1 := by
  unfold doNextEvent at h
  split_ifs at h
  · cases h
    exact goOn_pending hnone
  · cases h
    exact goOn_pending hnone
  · cases h
    refine goOn_pending ?_
    show (s.toPacedSource.timeout now).pending = []
    rw [PacedSource.timeout, PacedSource.retransmitPacket_pending]
    exact hnone
  · cases h
    exact goOn_pending hnone

/-- A `TimelySrc` deletes itself when no packet is left. -/
theorem doNextEvent_eq_none {nPackets : Nat} {s : TimelySrc D}
    (h : doNextEvent float now nPackets s = none) : nPackets = 0 := by
  unfold doNextEvent at h
  split_ifs at h with _ _ hdrained
  exact hdrained

/-- A `TimelySrc` has one event at most. -/
def disposal (float : TimelyFloat D) : Disposal (timelyEndhost float) where
  Tidy := fun s => s.pending.length ≤ 1
  tidy_new := fun _ _ _ _ => DataSource.pending_le_one rfl _
  tidy_event := fun h hmin hnext => doNextEvent_pending (erase_eq_nil hmin h) hnext
  tidy_receive := fun {_ _ s} h => (congrArg List.length (receivePacket_pending _ s)).trans_le h
  deletes := fun h hmin hnext => ⟨doNextEvent_eq_none hnext, erase_eq_nil hmin h⟩

end TimelySrc

/-! ## `PacketPairSrc` -/

/-- One more event, where there was none but those at `first`. -/
theorem length_erase_concat_le {l : List Nat} {first : Nat} (h : l.erase first = [])
    (time : Nat) : ((l ++ [time]).erase first).length ≤ 1 := by
  by_cases hfirst : first ∈ l
  · rw [List.erase_append_left _ hfirst, h]
    exact le_rfl
  · rw [List.erase_of_not_mem hfirst] at h
    rw [h]
    exact List.length_erase_le

/-- One event less, where there was one besides that at `first`. -/
theorem erase_erase_eq_nil {l : List Nat} {first time : Nat} (h : (l.erase first).length ≤ 1)
    (hmem : time ∈ l) (hne : time ≠ first) : (l.erase time).erase first = [] := by
  have hmem' : time ∈ l.erase first := (List.mem_erase_of_ne hne).mpr hmem
  apply List.eq_nil_of_length_eq_zero
  rw [List.erase_comm, List.length_erase_of_mem hmem']
  omega

namespace PacketPairSrc

variable {D : Type} {float : PairFloat D} {now : Nat}

/-- Besides the event at `_first_rto` there is one at most, and none before the first
    estimate. -/
structure Tidy (s : PacketPairSrc D) : Prop where
  chain : (s.pending.erase s.firstRto).length ≤ 1
  idle : s.state = .idle → s.pending.length ≤ 1
  startup : s.state = .startup → s.pending.erase s.firstRto = []

/-- Once there is an estimate only the chain matters. -/
theorem tidy_of_chain {s : PacketPairSrc D} (h : (s.pending.erase s.firstRto).length ≤ 1)
    (hidle : s.state ≠ .idle) (hstartup : s.state ≠ .startup) : Tidy s :=
  ⟨h, fun heq => absurd heq hidle, fun heq => absurd heq hstartup⟩

theorem tidy_new (flowsize duration startTime endtime : Nat) :
    Tidy (new float flowsize duration startTime endtime) where
  chain := List.length_erase_le.trans (DataSource.pending_le_one rfl _)
  idle := fun _ => DataSource.pending_le_one rfl _
  startup := nofun

/-- The first pair: there is the event at `_first_rto` and no other. -/
theorem tidy_start {s : PacketPairSrc D} (hnone : s.pending = []) : Tidy (start now s) := by
  have honly : (start now s).pending.erase (start now s).firstRto = [] := by
    have hpair : (transmitPacketPair now
        { s.toPacedSource with
          highestSent := 0, lastAcked := 0, bdpEstimate := 2 * MSS_BYTES }).pending = [] := by
      rw [transmitPacketPair_pending]
      exact hnone
    rcases DataSource.pending_cases (transmitPacketPair now
        { s.toPacedSource with
          highestSent := 0, lastAcked := 0, bdpEstimate := 2 * MSS_BYTES }).toDataSource
      (now + s.rto) with h | h
    · have hnil : (start now s).pending = [] := h.trans hpair
      rw [hnil]
      rfl
    · have hone : (start now s).pending = [now + s.rto] := by
        rw [hpair] at h
        exact h
      rw [hone]
      exact List.erase_cons_head ..
  exact ⟨by rw [honly]; exact Nat.zero_le 1, nofun, fun _ => honly⟩

/-- One event is scheduled besides that at `_first_rto`. -/
theorem chain_sourceIsPending {b : DataSource} {first : Nat} (h : b.pending.erase first = [])
    (time : Nat) : ((b.sourceIsPending time).pending.erase first).length ≤ 1 := by
  rcases DataSource.pending_cases b time with hsame | hmore
  · rw [hsame, h]
    exact Nat.zero_le 1
  · rw [hmore]
    exact length_erase_concat_le h time

theorem chain_sendPackets {s : PacketPairSrc D} (h : s.pending.erase s.firstRto = []) :
    ((sendPackets float now s).pending.erase s.firstRto).length ≤ 1 := by
  refine chain_sourceIsPending ?_ _
  rw [transmitPacketPair_pending]
  exact h

/-- A source that goes on keeps its chain. -/
theorem chain_goOn {s : PacketPairSrc D} (hlater : now ≠ s.firstRto)
    (h : s.pending.erase s.firstRto = []) :
    ((goOn float now s).pending.erase (goOn float now s).firstRto).length ≤ 1 := by
  simp only [goOn, if_neg hlater]
  split_ifs
  · exact chain_sendPackets h
  · exact chain_sourceIsPending h _

/-- An event of a source that is under way. -/
theorem tidy_goOn {s : PacketPairSrc D} {l : List Nat} (hmem : now ∈ l)
    (hpending : s.pending = l.erase now) (hchain : (l.erase s.firstRto).length ≤ 1)
    (hidle : s.state ≠ .idle) (hstartup : s.state ≠ .startup) : Tidy (goOn float now s) := by
  refine tidy_of_chain ?_ (by rwa [goOn_state]) (by rwa [goOn_state])
  by_cases hfirst : now = s.firstRto
  · -- the event that the first estimate made superfluous
    have hsame : goOn float now s = s := by rw [goOn, if_pos hfirst]
    rw [hsame, hpending, hfirst]
    exact List.length_erase_le.trans hchain
  · apply chain_goOn hfirst
    rw [hpending]
    exact erase_erase_eq_nil hchain hmem hfirst

theorem tidy_event {nPackets time : Nat} {s t : PacketPairSrc D} (h : Tidy s)
    (hmin : s.pending.min? = some time)
    (hnext : doNextEvent float time nPackets
      ((packetPairEndhost float).taken s time) = some t) : Tidy t := by
  have hmem : time ∈ s.pending := List.min?_mem hmin
  unfold doNextEvent at hnext
  -- taking the event out changes neither the state nor `_first_rto`
  have hstate : ((packetPairEndhost float).taken s time).state = s.state := rfl
  have hfirst : ((packetPairEndhost float).taken s time).firstRto = s.firstRto := rfl
  rw [hstate, hfirst] at hnext
  by_cases hstart : s.state = .idle ∨ (s.state = .startup ∧ time = s.firstRto)
  · -- the first pair, for the first time or again
    rw [if_pos hstart] at hnext
    cases hnext
    apply tidy_start
    rcases hstart with hidle | ⟨hstartup, hfirst⟩
    · exact erase_eq_nil hmin (h.idle hidle)
    · rw [hfirst]
      exact h.startup hstartup
  rw [if_neg hstart] at hnext
  have hidle : s.state ≠ .idle := fun heq => hstart (Or.inl heq)
  have hstartup : s.state ≠ .startup := by
    -- in the startup all events are at `_first_rto`
    intro heq
    refine hstart (Or.inr ⟨heq, ?_⟩)
    by_contra hne
    have hmem' := (List.mem_erase_of_ne hne).mpr hmem
    rw [h.startup heq] at hmem'
    cases hmem'
  split_ifs at hnext
  · cases hnext
    exact tidy_goOn hmem rfl h.chain hidle hstartup
  · cases hnext
    refine tidy_goOn hmem ?_ h.chain ?_ ?_
    · exact PacedSource.retransmitPacket_pending _
    · rw [PacedSource.timeout_state]
      exact nofun
    · rw [PacedSource.timeout_state]
      exact nofun
  · cases hnext
    exact tidy_goOn hmem rfl h.chain hidle hstartup

@[simp] theorem updateAlpha_firstRto (ecnRev : Bool) (s : PacketPairSrc D) :
    (updateAlpha float ecnRev s).firstRto = s.firstRto := by
  simp only [updateAlpha]
  split_ifs <;> rfl

@[simp] theorem updateRate_firstRto (pktpairdiff : Nat) (s : PacketPairSrc D) :
    (updateRate float pktpairdiff s).firstRto = s.firstRto := by
  simp only [updateRate]
  split_ifs <;> rfl

/-- What does not change the events keeps them tidy. -/
theorem Tidy.congr {s t : PacketPairSrc D} (h : Tidy s) (hpending : t.pending = s.pending)
    (hfirst : t.firstRto = s.firstRto) (hstate : t.state = s.state) : Tidy t := by
  constructor
  · rw [hpending, hfirst]
    exact h.chain
  · rw [hstate, hpending]
    exact h.idle
  · rw [hstate, hpending, hfirst]
    exact h.startup

/-- A gap starts the chain, once. -/
theorem tidy_takeGap (pktpairdiff : Nat) {s : PacketPairSrc D} (h : Tidy s) :
    Tidy (takeGap float now pktpairdiff s) := by
  have hrate : Tidy (updateRate float pktpairdiff s) :=
    h.congr (congrArg DataSource.pending (updateRate_source pktpairdiff s))
      (updateRate_firstRto pktpairdiff s) (updateRate_state pktpairdiff s)
  simp only [takeGap]
  split_ifs with _ hstartup
  · have hstate : (firstEstimate float now pktpairdiff (updateRate float pktpairdiff s)).state =
        .normal := sendPackets_state _
    refine tidy_of_chain (chain_sendPackets (hrate.startup hstartup)) ?_ ?_
    · rw [hstate]
      intro hidle
      cases hidle
    · rw [hstate]
      intro hstart
      cases hstart
  · exact hrate
  · exact h

theorem tidy_receivePacket {a : DataAck} {s : PacketPairSrc D} (h : Tidy s) :
    Tidy (receivePacket float now a s) := by
  simp only [receivePacket]
  split_ifs
  · exact h
  · exact tidy_of_chain h.chain (fun hidle => by cases hidle) fun hstart => by cases hstart
  · exact h
  · have hestimates : Tidy (updateEstimates float now a s) := by
      refine h.congr (congrArg DataSource.pending (updateEstimates_source a s)) ?_
        (updateEstimates_state a s)
      rw [updateEstimates, updateAlpha_firstRto]
    have hgap := @tidy_takeGap D float now a.seqno _ hestimates
    have hpending := @PacedSource.processAck_pending now a.ackno
      (takeGap float now a.seqno (updateEstimates float now a s)).toPacedSource
    -- no ack leads back to the startup
    rcases PacedSource.processAck_state now a.ackno
      (takeGap float now a.seqno (updateEstimates float now a s)).toPacedSource
      with hstate | hstate | ⟨hstate, -⟩
    · refine tidy_of_chain ?_ (fun hidle => ?_) fun hstart => ?_
      · rw [hpending]
        exact hgap.chain
      · cases hstate.symm.trans hidle
      · cases hstate.symm.trans hstart
    · refine tidy_of_chain ?_ (fun hidle => ?_) fun hstart => ?_
      · rw [hpending]
        exact hgap.chain
      · cases hstate.symm.trans hidle
      · cases hstate.symm.trans hstart
    · exact hgap.congr hpending rfl hstate

/-- After `_first_rto` the chain is all there is. -/
theorem deletes {nPackets time : Nat} {s : PacketPairSrc D} (h : Tidy s)
    (hmin : s.pending.min? = some time)
    (hnext : doNextEvent float time nPackets
      ((packetPairEndhost float).taken s time) = none) :
    nPackets = 0 ∧ s.pending.erase time = [] := by
  unfold doNextEvent at hnext
  split_ifs at hnext with _ _ hdrained
  obtain ⟨hzero, hlater⟩ := hdrained
  have hlater' : s.firstRto < time := hlater
  have hnone : s.firstRto ∉ s.pending := by
    intro hfirst
    have hle := (List.min?_eq_some_iff.mp hmin).2 _ hfirst
    omega
  have hchain := h.chain
  rw [List.erase_of_not_mem hnone] at hchain
  exact ⟨hzero, erase_eq_nil hmin hchain⟩

/-- A `PacketPairSrc` has one event at most when it deletes itself. -/
def disposal (float : PairFloat D) : Disposal (packetPairEndhost float) where
  Tidy := Tidy
  tidy_new := tidy_new
  tidy_event := tidy_event
  tidy_receive := tidy_receivePacket
  deletes := deletes

end PacketPairSrc

end Htsim
end DatacenterNetworking
