/-
  DatacenterNetworking.Htsim.DupAcks

  `_dupacks` of `PacketPairSrc` and `TimelySrc`.  Every duplicate ack raises it, and
  with it the limit of what is in flight.  In fast recovery a partial ack takes off the
  segments it covers, one less, as if each of them had raised it before; but an ack may
  be lost, and `_dupacks` is a `uint16_t`.

  `limited_iff_covered`: the counter does not wrap below zero, and the limit stays
  within what the duplicate acks allow, in exactly those runs in which no partial ack
  covers more than one segment beyond what the counter holds.
-/

import DatacenterNetworking.Htsim.PacketPair
import DatacenterNetworking.Htsim.Timely

namespace DatacenterNetworking
namespace Htsim

namespace PacedSource

/-- A partial ack: a new one in fast recovery that does not end it. -/
def Partial (s : PacedSource) (ackno : Nat) : Prop :=
  s.lastAcked < ackno ∧ s.state = .recovery ∧ ackno < s.recoverSeq

instance (s : PacedSource) (ackno : Nat) : Decidable (s.Partial ackno) :=
  inferInstanceAs (Decidable (_ ∧ _))

/-- The segments that a new ack covers. -/
def covered (s : PacedSource) (ackno : Nat) : Nat := (ackno - s.lastAcked) / MSS_BYTES

/-- `_dupacks` after an ack. -/
def ackDupacks (s : PacedSource) (ackno : Nat) : Nat :=
  if s.Partial ackno then u16 (sub64 s.dupacks (s.covered ackno) + 1)
  else if s.lastAcked < ackno then 0
  else u16 (s.dupacks + 1)

/-- The duplicate acks since the last reset of `_dupacks`, `n` of them before this ack. -/
def countDups (s : PacedSource) (ackno n : Nat) : Nat :=
  if s.Partial ackno then n
  else if s.lastAcked < ackno then 0
  else n + 1

section

variable {now : Nat}

@[simp] theorem armRto_dupacks (s : PacedSource) : (armRto now s).dupacks = s.dupacks := by
  simp only [armRto]
  split_ifs <;> rfl

@[simp] theorem retransmitPacket_dupacks (s : PacedSource) :
    (retransmitPacket now s).dupacks = s.dupacks :=
  armRto_dupacks _

@[simp] theorem timeout_dupacks (s : PacedSource) : (timeout now s).dupacks = 0 :=
  retransmitPacket_dupacks _

@[simp] theorem armRto_recoverSeq (s : PacedSource) :
    (armRto now s).recoverSeq = s.recoverSeq := by
  simp only [armRto]
  split_ifs <;> rfl

@[simp] theorem updateRtt_dupacks (ts : Nat) (s : PacedSource) :
    (updateRtt now ts s).dupacks = s.dupacks := by
  simp only [updateRtt]
  split_ifs <;> rfl

@[simp] theorem updateRtt_recoverSeq (ts : Nat) (s : PacedSource) :
    (updateRtt now ts s).recoverSeq = s.recoverSeq := by
  simp only [updateRtt]
  split_ifs <;> rfl

/-- The three places of `receivePacket` that write it. -/
theorem processAck_dupacks (ackno : Nat) (s : PacedSource) :
    (processAck now ackno s).dupacks = ackDupacks s ackno := by
  by_cases hnew : s.lastAcked < ackno
  · have hbytes : sub64 ackno s.lastAcked = ackno - s.lastAcked := by rw [sub64, if_pos hnew.le]
    rw [processAck, if_pos hnew, newAck, ackDupacks, covered, hbytes]
    by_cases hrec : s.state = .recovery
    · have hrec' : ¬ (takeAck now ackno s).state ≠ .recovery := not_not.mpr hrec
      by_cases hpart : ackno < s.recoverSeq
      · have hpart' : ackno < (takeAck now ackno s).recoverSeq := hpart
        rw [if_neg hrec', if_pos hpart', if_pos ⟨hnew, hrec, hpart⟩]
        exact retransmitPacket_dupacks _
      · have hfull : ¬ ackno < (takeAck now ackno s).recoverSeq := hpart
        rw [if_neg hrec', if_neg hfull, if_neg fun h => hpart h.2.2, if_pos hnew]
    · have hrec' : (takeAck now ackno s).state ≠ .recovery := hrec
      rw [if_pos hrec', if_neg fun h => hrec h.2.1, if_pos hnew]
  · rw [processAck, if_neg hnew, ackDupacks, if_neg fun h => hnew h.1, if_neg hnew]
    simp only [dupAck]
    split_ifs
    · rfl
    · rfl
    · exact retransmitPacket_dupacks _

/-- What an ack makes of `_dupacks` depends on four fields only. -/
theorem ackDupacks_congr {s t : PacedSource} (ackno : Nat) (hdup : t.dupacks = s.dupacks)
    (hlow : t.lastAcked = s.lastAcked) (hseq : t.recoverSeq = s.recoverSeq)
    (hstate : t.state = .recovery ↔ s.state = .recovery) :
    ackDupacks t ackno = ackDupacks s ackno := by
  have hpart : t.Partial ackno ↔ s.Partial ackno := by
    simp only [Partial, hlow, hseq, hstate]
  simp only [ackDupacks, hpart, covered, hdup, hlow]

/-- The 16-bit value of a difference that is not negative. -/
theorem u16_sub {d q : Nat} (hd : d < 2 ^ 16) (hpos : 1 ≤ q) (hq : q ≤ d + 1) :
    u16 (sub64 d q + 1) = d + 1 - q := by
  simp only [u16, sub64]
  split_ifs
  · omega
  · omega

/-- The counter stays within the duplicate acks, if a partial ack takes off no more than it
    holds. -/
theorem ackDupacks_le {s : PacedSource} (ackno : Nat) {n : Nat} (hsmall : s.dupacks < 2 ^ 16)
    (hle : s.dupacks ≤ n)
    (hpart : s.Partial ackno → 1 ≤ s.covered ackno ∧ s.covered ackno ≤ s.dupacks + 1) :
    s.ackDupacks ackno < 2 ^ 16 ∧ s.ackDupacks ackno ≤ s.countDups ackno n := by
  simp only [ackDupacks, countDups]
  split_ifs with hp hnew
  · obtain ⟨hpos, hq⟩ := hpart hp
    rw [u16_sub hsmall hpos hq]
    omega
  · exact ⟨Nat.two_pow_pos 16, le_rfl⟩
  · -- a duplicate ack; the counter may wrap to zero
    have hmod : u16 (s.dupacks + 1) ≤ s.dupacks + 1 := Nat.mod_le _ _
    exact ⟨Nat.mod_lt _ (Nat.two_pow_pos 16), by omega⟩

end

end PacedSource

/-! ## The two sources -/

/-- A source that keeps a `PacedSource`.  `timesOut` is whether its event at this time is a
    retransmission timeout. -/
structure PacedHost (S K : Type) where
  host : Endhost S K
  paced : S → PacedSource
  timesOut : Nat → S → Bool
  source_eq (s : S) : host.source s = (paced s).toDataSource
  new_dupacks (flowsize duration startTime endtime : Nat) :
    (paced (host.newSrc flowsize duration startTime endtime)).dupacks = 0
  setSource_dupacks (s : S) (b : DataSource) :
    (paced (host.setSource s b)).dupacks = (paced s).dupacks
  /-- Of all events only a timeout changes `_dupacks`. -/
  event_dupacks (now nPackets : Nat) (s t : S) (h : host.doNextEvent now nPackets s = some t) :
    (paced t).dupacks = if timesOut now s then 0 else (paced s).dupacks
  deleted_timesOut (now nPackets : Nat) (s : S) (h : host.doNextEvent now nPackets s = none) :
    timesOut now s = false
  receive_dupacks (now : Nat) (a : DataAck) (s : S) :
    (paced (host.receivePacket now a s)).dupacks =
      if host.finished s = false ∧ ¬ (host.source s).Completes now a.ackno ∧
          (paced s).lastAcked ≤ a.ackno then
        (paced s).ackDupacks a.ackno
      else (paced s).dupacks

namespace PacketPairSrc

variable {D : Type} {float : PairFloat D} {now : Nat}

/-- The branch of `doNextEvent` for the retransmission timeout. -/
def timesOut (now : Nat) (s : PacketPairSrc D) : Bool :=
  decide (¬ (s.state = .idle ∨ (s.state = .startup ∧ now = s.firstRto)) ∧ s.state ≠ .finish ∧
    s.rtoTimeout ≠ 0 ∧ s.rtoTimeout ≤ now)

/-- Sending a pair leaves what the acks write. -/
theorem transmitPacketPair_fields (now : Nat) (s : PacedSource) :
    (transmitPacketPair now s).dupacks = s.dupacks ∧
      (transmitPacketPair now s).lastAcked = s.lastAcked ∧
      (transmitPacketPair now s).recoverSeq = s.recoverSeq := by
  simp only [transmitPacketPair]
  split_ifs
  · exact ⟨rfl, rfl, rfl⟩
  · exact ⟨rfl, rfl, rfl⟩
  · refine ⟨PacedSource.armRto_dupacks _, ?_, PacedSource.armRto_recoverSeq _⟩
    rw [PacedSource.armRto_source]
    rfl
  · -- the second packet is sent like the first
    refine ⟨PacedSource.armRto_dupacks _, ?_, PacedSource.armRto_recoverSeq _⟩
    show ((s.sendNext now true).armRto now).lastAcked = s.lastAcked
    rw [PacedSource.armRto_source]
    rfl

theorem goOn_dupacks (s : PacketPairSrc D) : (goOn float now s).dupacks = s.dupacks := by
  simp only [goOn]
  split_ifs
  · rfl
  · exact (transmitPacketPair_fields now s.toPacedSource).1
  · rfl

theorem doNextEvent_dupacks {nPackets : Nat} {s t : PacketPairSrc D}
    (h : doNextEvent float now nPackets s = some t) :
    t.dupacks = if timesOut now s then 0 else s.dupacks := by
  simp only [timesOut, decide_eq_true_eq]
  unfold doNextEvent at h
  split_ifs at h with hstart hfinish hdrained htimeout
  · cases h
    rw [if_neg fun hout => hout.1 hstart]
    exact (transmitPacketPair_fields now _).1
  · cases h
    rw [if_neg fun hout => hout.2.1 hfinish]
    exact goOn_dupacks s
  · cases h
    rw [if_pos ⟨hstart, hfinish, htimeout⟩, goOn_dupacks]
    exact PacedSource.timeout_dupacks _
  · cases h
    rw [if_neg fun hout => htimeout hout.2.2]
    exact goOn_dupacks s

theorem deleted_timesOut {nPackets : Nat} {s : PacketPairSrc D}
    (h : doNextEvent float now nPackets s = none) : timesOut now s = false := by
  unfold doNextEvent at h
  split_ifs at h with _ hfinish
  exact decide_eq_false fun hout => hout.2.1 hfinish

/-- A gap leaves them too. -/
theorem takeGap_fields (float : PairFloat D) (now pktpairdiff : Nat) (s : PacketPairSrc D) :
    (takeGap float now pktpairdiff s).dupacks = s.dupacks ∧
      (takeGap float now pktpairdiff s).lastAcked = s.lastAcked ∧
      (takeGap float now pktpairdiff s).recoverSeq = s.recoverSeq := by
  have hrate : (updateRate float pktpairdiff s).dupacks = s.dupacks ∧
      (updateRate float pktpairdiff s).lastAcked = s.lastAcked ∧
      (updateRate float pktpairdiff s).recoverSeq = s.recoverSeq := by
    simp only [updateRate]
    split_ifs
    · exact ⟨rfl, rfl, rfl⟩
    · exact ⟨rfl, rfl, rfl⟩
  simp only [takeGap]
  split_ifs
  · obtain ⟨hdup, hlow, hseq⟩ := hrate
    obtain ⟨hdup', hlow', hseq'⟩ := transmitPacketPair_fields now
      { (updateRate float pktpairdiff s).toPacedSource with
        state := .normal
        bdpEstimate := bdpOf float (rateOf pktpairdiff) (updateRate float pktpairdiff s) }
    refine ⟨hdup'.trans hdup, Eq.trans ?_ (hlow'.trans hlow), hseq'.trans hseq⟩
    exact (DataSource.sourceIsPending_spec _ _).2.2.2.1
  · exact hrate
  · exact ⟨rfl, rfl, rfl⟩

theorem receivePacket_dupacks (a : DataAck) (s : PacketPairSrc D) :
    (receivePacket float now a s).dupacks =
      if s.state ≠ .finish ∧ ¬ s.Completes now a.ackno ∧ s.lastAcked ≤ a.ackno then
        s.ackDupacks a.ackno
      else s.dupacks := by
  by_cases hstate : s.state = .finish
  · rw [receivePacket, if_pos hstate, if_neg fun h => h.1 hstate]
  by_cases hgo : s.Completes now a.ackno
  · rw [receivePacket, if_neg hstate, if_pos hgo, if_neg fun h => h.2.1 hgo]
  rcases Nat.lt_or_ge a.ackno s.lastAcked with hold | hnew
  · rw [receivePacket_old hstate hgo hold, if_neg fun h => Nat.not_le_of_lt hold h.2.2]
  rw [if_pos ⟨hstate, hgo, hnew⟩, receivePacket_eq hstate hgo hnew,
    PacedSource.processAck_dupacks]
  -- the estimates, and a pair sent before, are none of the fields that matter
  have hest : (updateEstimates float now a s).dupacks = s.dupacks ∧
      (updateEstimates float now a s).recoverSeq = s.recoverSeq := by
    rw [updateEstimates, updateAlpha_source]
    exact ⟨PacedSource.updateRtt_dupacks _ _, PacedSource.updateRtt_recoverSeq _ _⟩
  obtain ⟨hdup, hlow, hseq⟩ := takeGap_fields float now a.seqno
    (updateEstimates float now a s)
  refine PacedSource.ackDupacks_congr a.ackno (hdup.trans hest.1) ?_ (hseq.trans hest.2) ?_
  · rw [hlow, updateEstimates_source]
  · rcases takeGap_state float now a.seqno (updateEstimates float now a s) with
      ⟨hstart, hnormal⟩ | ⟨hsame, -⟩
    · rw [updateEstimates_state] at hstart
      rw [hnormal, hstart]
      decide
    · rw [hsame, updateEstimates_state]

end PacketPairSrc

/-- `PacketPairSrc`. -/
def pairHost {D : Type} (float : PairFloat D) : PacedHost (PacketPairSrc D) PacketPairSink where
  host := packetPairEndhost float
  paced := PacketPairSrc.toPacedSource
  timesOut := PacketPairSrc.timesOut
  source_eq := fun _ => rfl
  new_dupacks := fun _ _ _ _ => rfl
  setSource_dupacks := fun _ _ => rfl
  event_dupacks := fun _ _ _ _ h => PacketPairSrc.doNextEvent_dupacks h
  deleted_timesOut := fun _ _ _ h => PacketPairSrc.deleted_timesOut h
  receive_dupacks := fun now a s => by
    show (PacketPairSrc.receivePacket float now a s).dupacks = _
    rw [PacketPairSrc.receivePacket_dupacks]
    simp only [packetPairEndhost, decide_eq_false_iff_not, ne_eq]

namespace TimelySrc

variable {D : Type} {float : TimelyFloat D} {now : Nat}

/-- The branch of `doNextEvent` for the retransmission timeout. -/
def timesOut (now : Nat) (s : TimelySrc D) : Bool :=
  decide (s.state ≠ .idle ∧ s.state ≠ .finish ∧ s.rtoTimeout ≠ 0 ∧ s.rtoTimeout ≤ now)

theorem goOn_dupacks (s : TimelySrc D) : (goOn float now s).dupacks = s.dupacks := by
  simp only [goOn]
  split_ifs
  · simp only [sendPackets]
    split_ifs
    · rfl
    · rfl
    · exact PacedSource.armRto_dupacks _
  · rfl

theorem doNextEvent_dupacks {nPackets : Nat} {s t : TimelySrc D}
    (h : doNextEvent float now nPackets s = some t) :
    t.dupacks = if timesOut now s then 0 else s.dupacks := by
  simp only [timesOut, decide_eq_true_eq]
  unfold doNextEvent at h
  split_ifs at h with hidle hfinish hdrained htimeout
  · cases h
    rw [if_neg fun hout => hout.1 hidle]
    exact goOn_dupacks _
  · cases h
    rw [if_neg fun hout => hout.2.1 hfinish]
    exact goOn_dupacks s
  · cases h
    rw [if_pos ⟨hidle, hfinish, htimeout⟩, goOn_dupacks]
    exact PacedSource.timeout_dupacks _
  · cases h
    rw [if_neg fun hout => htimeout hout.2.2]
    exact goOn_dupacks s

theorem deleted_timesOut {nPackets : Nat} {s : TimelySrc D}
    (h : doNextEvent float now nPackets s = none) : timesOut now s = false := by
  unfold doNextEvent at h
  split_ifs at h with _ hfinish
  exact decide_eq_false fun hout => hout.2.1 hfinish

theorem receivePacket_dupacks (a : DataAck) (s : TimelySrc D) :
    (receivePacket float now a s).dupacks =
      if s.state ≠ .finish ∧ ¬ s.Completes now a.ackno ∧ s.lastAcked ≤ a.ackno then
        s.ackDupacks a.ackno
      else s.dupacks := by
  by_cases hstate : s.state = .finish
  · rw [receivePacket, if_pos hstate, if_neg fun h => h.1 hstate]
  by_cases hgo : s.Completes now a.ackno
  · rw [receivePacket, if_neg hstate, if_pos hgo, if_neg fun h => h.2.1 hgo]
  rcases Nat.lt_or_ge a.ackno s.lastAcked with hold | hnew
  · rw [receivePacket_old hstate hgo hold, if_neg fun h => Nat.not_le_of_lt hold h.2.2]
  rw [if_pos ⟨hstate, hgo, hnew⟩, receivePacket_eq hstate hgo hnew,
    PacedSource.processAck_dupacks]
  -- the estimates are none of the fields that matter
  have hest : (updateEstimates float now a s).dupacks = s.dupacks ∧
      (updateEstimates float now a s).recoverSeq = s.recoverSeq := by
    simp only [updateEstimates, updateRate]
    split_ifs
    · exact ⟨PacedSource.updateRtt_dupacks _ _, PacedSource.updateRtt_recoverSeq _ _⟩
    · exact ⟨PacedSource.updateRtt_dupacks _ _, PacedSource.updateRtt_recoverSeq _ _⟩
  refine PacedSource.ackDupacks_congr a.ackno hest.1 ?_ hest.2 ?_
  · rw [updateEstimates_source]
  · rw [updateEstimates_state]

end TimelySrc

/-- `TimelySrc`. -/
def timelyHost {D : Type} (float : TimelyFloat D) : PacedHost (TimelySrc D) TimelySink where
  host := timelyEndhost float
  paced := TimelySrc.toPacedSource
  timesOut := TimelySrc.timesOut
  source_eq := fun _ => rfl
  new_dupacks := fun _ _ _ _ => rfl
  setSource_dupacks := fun _ _ => rfl
  event_dupacks := fun _ _ _ _ h => TimelySrc.doNextEvent_dupacks h
  deleted_timesOut := fun _ _ _ h => TimelySrc.deleted_timesOut h
  receive_dupacks := fun now a s => by
    show (TimelySrc.receivePacket float now a s).dupacks = _
    rw [TimelySrc.receivePacket_dupacks]
    simp only [timelyEndhost, decide_eq_false_iff_not, ne_eq]

/-! ## Runs -/

/-- A flow, and the number of duplicate acks its source has taken since the last reset of
    `_dupacks`. -/
structure Counted (S K : Type) where
  flow : Flow S K
  dups : Nat

namespace PacedHost

variable {S K : Type} (H : PacedHost S K)

/-- The ack is taken, and is not one from the past. -/
def Processes (s : Flow S K) (a : DataAck) : Prop :=
  s.Takes H.host a ∧ (H.paced s.src).lastAcked ≤ a.ackno

instance (s : Flow S K) (a : DataAck) : Decidable (H.Processes s a) :=
  inferInstanceAs (Decidable (_ ∧ _))

/-- The duplicate acks after a step. -/
def dupsAfter (s : Flow S K) (n : Nat) : Flow.Act → Nat
  | .event =>
      match (H.host.source s.src).pending.min? with
      | some time => if H.timesOut time (s.popEvent H.host time).src then 0 else n
      | none => n
  | .deliverAck i =>
      match s.acks[i]? with
      | some a => if H.Processes s a then (H.paced s.src).countDups a.ackno n else n
      | none => n
  | _ => n

/-- A flow that counts them. -/
def counted : Lts (Counted S K) Flow.Act where
  step := fun c a =>
    (Flow.step H.host c.flow a).map fun t => { flow := t, dups := H.dupsAfter c.flow c.dups a }

/-- Before the first event. -/
def start (flowsize duration startTime endtime : Nat) : Counted S K where
  flow := Flow.init H.host flowsize duration startTime endtime
  dups := 0

/-- The limit of what is in flight is one and a half times the estimate, and a segment for
    each of the duplicate acks. -/
def Limited (c : Counted S K) : Prop :=
  (H.paced c.flow.src).bdpLimit ≤
    (H.paced c.flow.src).bdpEstimate + (H.paced c.flow.src).bdpEstimate / 2 + c.dups * MSS_BYTES

instance (c : Counted S K) : Decidable (H.Limited c) := inferInstanceAs (Decidable (_ ≤ _))

/-- A partial ack takes off what it covers, one less. -/
def NoWrap (c : Counted S K) : Flow.Act → Prop
  | .deliverAck i => ∀ a, c.flow.acks[i]? = some a → H.Processes c.flow a →
      (H.paced c.flow.src).Partial a.ackno → ∀ t, H.counted.step c (.deliverAck i) = some t →
        ((H.paced t.flow.src).dupacks : ℤ) =
          (H.paced c.flow.src).dupacks - (H.paced c.flow.src).covered a.ackno + 1
  | _ => True

/-- A partial ack covers one segment more than the counter holds, at most. -/
def Covered (c : Counted S K) : Flow.Act → Prop
  | .deliverAck i => ∀ a, c.flow.acks[i]? = some a → H.Processes c.flow a →
      (H.paced c.flow.src).Partial a.ackno →
        (H.paced c.flow.src).covered a.ackno ≤ (H.paced c.flow.src).dupacks + 1
  | _ => True

/-- What holds in a run with such acks only. -/
structure Inv (c : Counted S K) : Prop where
  flow : c.flow.Inv H.host
  small : (H.paced c.flow.src).dupacks < 2 ^ 16
  le : (H.paced c.flow.src).dupacks ≤ c.dups

variable {H} {c d : Counted S K} {a : Flow.Act}

theorem inv_start (flowsize duration startTime endtime : Nat) :
    H.Inv (H.start flowsize duration startTime endtime) where
  flow := Flow.inv_init flowsize duration startTime endtime
  small := by
    show (H.paced (H.host.newSrc flowsize duration startTime endtime)).dupacks < 2 ^ 16
    rw [H.new_dupacks]
    exact Nat.two_pow_pos 16
  le := (H.new_dupacks flowsize duration startTime endtime).le

theorem limited_of_inv (h : H.Inv c) : H.Limited c :=
  Nat.add_le_add_left (Nat.mul_le_mul_right _ h.le) _

/-- A partial ack covers a segment at least. -/
theorem one_le_covered {i : Nat} {x : DataAck} (h : c.flow.Inv H.host)
    (hx : c.flow.acks[i]? = some x) (hnew : (H.paced c.flow.src).lastAcked < x.ackno) :
    1 ≤ (H.paced c.flow.src).covered x.ackno := by
  have hack := (h.acks x (List.mem_of_getElem? hx)).1
  have hlow := h.segmented.lastAcked
  rw [H.source_eq] at hlow
  have hseg := add_mss_le_of_dvd hlow hack hnew
  rw [PacedSource.covered, Nat.one_le_div_iff (by decide)]
  omega

/-- What an ack that arrives makes of `_dupacks`. -/
theorem dupacks_ack {s t : Flow S K} {i : Nat} {x : DataAck} (hx : s.acks[i]? = some x)
    (hstep : Flow.step H.host s (.deliverAck i) = some t) :
    (H.paced t.src).dupacks =
      if H.Processes s x then (H.paced s.src).ackDupacks x.ackno else (H.paced s.src).dupacks := by
  rw [Flow.deliverAck_src hx hstep, H.receive_dupacks]
  simp only [Processes, Flow.Takes, and_assoc]

/-- What an event makes of it, and of the count. -/
theorem dupacks_event {s t : Flow S K} (n : Nat) (hstep : Flow.step H.host s .event = some t) :
    (H.paced t.src).dupacks = 0 ∨
      (H.paced t.src).dupacks = (H.paced s.src).dupacks ∧ H.dupsAfter s n .event = n := by
  obtain ⟨time, hmin, -, hcases⟩ := Flow.event_cases hstep
  have hdups : H.dupsAfter s n .event =
      if H.timesOut time (s.popEvent H.host time).src then 0 else n := by
    simp only [dupsAfter, hmin]
  have hpop : (H.paced (s.popEvent H.host time).src).dupacks = (H.paced s.src).dupacks :=
    H.setSource_dupacks _ _
  rcases hcases with ⟨src, hnext, rfl⟩ | ⟨hnext, rfl⟩
  · have hsrc := H.event_dupacks _ _ _ _ hnext
    by_cases hout : H.timesOut time (s.popEvent H.host time).src = true
    · rw [if_pos hout] at hsrc
      exact Or.inl hsrc
    · rw [if_neg hout, hpop] at hsrc
      rw [hdups, if_neg hout]
      exact Or.inr ⟨hsrc, rfl⟩
  · have hout := H.deleted_timesOut _ _ _ hnext
    rw [hdups, if_neg (by rw [hout]; exact Bool.false_ne_true)]
    exact Or.inr ⟨hpop, rfl⟩

/-- A step that is not a partial ack keeps the invariant, and a partial ack does if the counter
    holds what it covers. -/
theorem inv_step (h : H.Inv c) (hcov : H.Covered c a) (hstep : H.counted.step c a = some d) :
    H.Inv d := by
  obtain ⟨t, ht, rfl⟩ := Option.map_eq_some_iff.mp hstep
  have hflow : t.Inv H.host := Flow.inv_step _ _ _ h.flow ht
  have hsmall := h.small
  have hle := h.le
  -- an event resets the count or leaves it; an ack changes it once; the network never does
  by_cases hevent : a = .event
  · rw [hevent] at ht ⊢
    rcases dupacks_event c.dups ht with hzero | ⟨hsame, hdups⟩
    · exact ⟨hflow, hzero.trans_lt (Nat.two_pow_pos 16), hzero.trans_le (Nat.zero_le _)⟩
    · refine ⟨hflow, hsame.trans_lt hsmall, ?_⟩
      rw [hdups]
      exact hsame.trans_le hle
  by_cases hack : ∃ i, a = .deliverAck i
  · obtain ⟨i, rfl⟩ := hack
    obtain ⟨x, hx⟩ : ∃ x, c.flow.acks[i]? = some x := by
      cases Flow.stepped ht with
      | ack hx => exact ⟨_, hx⟩
      | network hother => exact absurd rfl (hother i)
    have hdup := dupacks_ack hx ht
    have hdups : H.dupsAfter c.flow c.dups (.deliverAck i) =
        if H.Processes c.flow x then (H.paced c.flow.src).countDups x.ackno c.dups
        else c.dups := by
      simp only [dupsAfter, hx]
    by_cases hproc : H.Processes c.flow x
    · rw [if_pos hproc] at hdup hdups
      obtain ⟨hlt, hbound⟩ := PacedSource.ackDupacks_le x.ackno hsmall hle
        fun hpart => ⟨one_le_covered h.flow hx hpart.1, hcov x hx hproc hpart⟩
      refine ⟨hflow, hdup.trans_lt hlt, ?_⟩
      show (H.paced t.src).dupacks ≤ _
      rw [hdups, hdup]
      exact hbound
    · rw [if_neg hproc] at hdup hdups
      refine ⟨hflow, hdup.trans_lt hsmall, ?_⟩
      show (H.paced t.src).dupacks ≤ _
      rw [hdups, hdup]
      exact hle
  · have hsrc := Flow.src_of_step hevent (fun i hi => hack ⟨i, hi⟩) ht
    have hdups : H.dupsAfter c.flow c.dups a = c.dups := by
      cases a with
      | event => exact absurd rfl hevent
      | deliverAck i => exact absurd ⟨i, rfl⟩ hack
      | _ => rfl
    refine ⟨hflow, ?_, ?_⟩
    · show (H.paced t.src).dupacks < 2 ^ 16
      rw [hsrc]
      exact hsmall
    · show (H.paced t.src).dupacks ≤ _
      rw [hdups, hsrc]
      exact hle

/-- The update of such an ack is that of whole numbers. -/
theorem noWrap_iff_covered (h : H.Inv c) (hstep : H.counted.step c a = some d) :
    H.NoWrap c a ↔ H.Covered c a := by
  cases a with
  | deliverAck i =>
    obtain ⟨t, ht, rfl⟩ := Option.map_eq_some_iff.mp hstep
    refine forall₄_congr fun x hx hproc hpart => ?_
    have hdup := dupacks_ack hx ht
    rw [if_pos hproc, PacedSource.ackDupacks, if_pos hpart] at hdup
    constructor
    · intro hwrap
      have heq := hwrap _ hstep
      omega
    · intro hq t' ht'
      cases hstep.symm.trans ht'
      have hpos := one_le_covered h.flow hx hpart.1
      rw [PacedSource.u16_sub h.small hpos hq] at hdup
      show ((H.paced t.src).dupacks : ℤ) = _
      omega
  | _ => exact Iff.rfl

/-- For either source, and every run of it. -/
theorem limited_iff (flowsize duration startTime endtime : Nat) (as : List Flow.Act) :
    H.counted.Always H.Limited (H.start flowsize duration startTime endtime) as ∧
        H.counted.Along H.NoWrap (H.start flowsize duration startTime endtime) as ↔
      H.counted.Along H.Covered (H.start flowsize duration startTime endtime) as :=
  Lts.always_and_along_iff (J := H.Inv) (fun _ h => limited_of_inv h)
    (fun _ _ _ h hstep hcov => ⟨inv_step h hcov hstep, (noWrap_iff_covered h hstep).mpr hcov⟩)
    (fun _ _ _ h hstep _ hwrap => (noWrap_iff_covered h hstep).mp hwrap)
    as (inv_start flowsize duration startTime endtime)

end PacedHost

/-- For every flow of either source, and every run of it. -/
theorem limited_iff_covered {D D' : Type} (pair : PairFloat D) (timely : TimelyFloat D')
    (flowsize duration startTime endtime : Nat) (as : List Flow.Act) :
    ((pairHost pair).counted.Always (pairHost pair).Limited
            ((pairHost pair).start flowsize duration startTime endtime) as ∧
          (pairHost pair).counted.Along (pairHost pair).NoWrap
            ((pairHost pair).start flowsize duration startTime endtime) as ↔
        (pairHost pair).counted.Along (pairHost pair).Covered
          ((pairHost pair).start flowsize duration startTime endtime) as) ∧
      ((timelyHost timely).counted.Always (timelyHost timely).Limited
            ((timelyHost timely).start flowsize duration startTime endtime) as ∧
          (timelyHost timely).counted.Along (timelyHost timely).NoWrap
            ((timelyHost timely).start flowsize duration startTime endtime) as ↔
        (timelyHost timely).counted.Along (timelyHost timely).Covered
          ((timelyHost timely).start flowsize duration startTime endtime) as) :=
  ⟨PacedHost.limited_iff flowsize duration startTime endtime as,
    PacedHost.limited_iff flowsize duration startTime endtime as⟩

/-- Of six segments the first and the last are lost.  Three duplicate acks arrive, and the
    retransmission; the duplicate ack of the fifth segment is lost.  The partial ack for five
    segments takes four off a counter of three. -/
def lostDupAck : List Flow.Act :=
  List.replicate 6 .event ++
    [.dataFault (.lose 0), .deliverData 0, .deliverData 0, .deliverData 0,
      .deliverAck 0, .deliverAck 0, .deliverAck 0,
      .deliverData 0, .ackFault (.lose 0), .dataFault (.lose 0), .deliverData 0, .deliverAck 0]

/-- The limit is `65535` segments too large then. -/
theorem lostDupAck_breaks :
    ¬ (timelyHost exactTimely).counted.Always (timelyHost exactTimely).Limited
      ((timelyHost exactTimely).start 0 0 0 0) lostDupAck := by
  decide +kernel

end Htsim
end DatacenterNetworking
