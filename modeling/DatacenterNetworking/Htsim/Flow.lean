/-
  DatacenterNetworking.Htsim.Flow

  One flow: a source and its sink, joined by a network that may lose, duplicate,
  delay and reorder the packets of both directions and mark data packets
  (`ECN_FWD`).

  `Endhost` is what the simulator calls on the two ends, with the laws that make
  a source an abstract sender.  Everything here is for any of them; `Htsim.Tcp`,
  `Htsim.PacketPair` and `Htsim.Timely` are three.

  Time is that of the event list.  An event of the source is the earliest one
  pending; the queues and pipes of the network have events of their own, so that
  time may go on to any moment before the source's next event and packets arrive
  at any such moment.
-/

import DatacenterNetworking.Htsim.DataSink
import DatacenterNetworking.Htsim.DataSource
import DatacenterNetworking.Lib.Channel

namespace DatacenterNetworking
namespace Htsim

/-- The two ends of a flow.  `doNextEvent` gets the time and `_flow._nPackets`, and returns
    `none` when the source deletes itself; a sink answers every packet with an ack. -/
structure Endhost (S K : Type) where
  newSrc : Nat → Nat → Nat → Nat → S
  newSink : K
  source : S → DataSource
  setSource : S → DataSource → S
  finished : S → Bool
  doNextEvent : Nat → Nat → S → Option S
  receivePacket : Nat → DataAck → S → S
  dataSink : K → DataSink
  sinkReceive : Nat → DataPacket → K → K × DataAck
  source_newSrc (flowsize duration startTime endtime : Nat) :
    source (newSrc flowsize duration startTime endtime) =
      DataSource.new flowsize duration startTime endtime
  finished_newSrc (flowsize duration startTime endtime : Nat) :
    finished (newSrc flowsize duration startTime endtime) = false
  dataSink_newSink : dataSink newSink = DataSink.new
  source_setSource (s : S) (b : DataSource) : source (setSource s b) = b
  finished_setSource (s : S) (b : DataSource) : finished (setSource s b) = finished s
  /-- An event makes moves of a sender, and does not finish the flow. -/
  event_moves (now nPackets : Nat) (s t : S) (h : doNextEvent now nPackets s = some t) :
    DataSource.Moves none (source s) (source t)
  event_open (now nPackets : Nat) (s t : S) (h : doNextEvent now nPackets s = some t) :
    finished s = false → finished t = false
  /-- An ack that finds the flow finished, or that finishes it, changes no counter. -/
  receive_stop (now : Nat) (a : DataAck) (s : S)
    (h : finished s = true ∨ (source s).Completes now a.ackno) :
    source (receivePacket now a s) = source s
  /-- Any other is taken, or ignored. -/
  receive_moves (now : Nat) (a : DataAck) (s : S) (h : finished s = false)
    (hgo : ¬ (source s).Completes now a.ackno) :
    DataSource.Moves (some a.ackno) (source s) (source (receivePacket now a s))
  receive_open (now : Nat) (a : DataAck) (s : S) (h : finished s = false)
    (hgo : ¬ (source s).Completes now a.ackno) : finished (receivePacket now a s) = false
  sink_receive (now : Nat) (p : DataPacket) (k : K) :
    dataSink (sinkReceive now p k).1 = (dataSink k).processDataPacket p
  sink_ackno (now : Nat) (p : DataPacket) (k : K) :
    (sinkReceive now p k).2.ackno = (dataSink (sinkReceive now p k).1).cumulativeAck

/-- A flow.  `data` and `acks` are in flight, `rcvd` is the history of its sink, and a flow
    that is not `alive` has deleted itself. -/
structure Flow (S K : Type) where
  now : Nat
  src : S
  sink : K
  data : List DataPacket
  acks : List DataAck
  alive : Bool
  rcvd : List DataPacket

namespace Flow

/-- What may happen next. -/
inductive Act where
  | event
  | advance (time : Nat)
  | deliverData (i : Nat)
  | deliverAck (i : Nat)
  | dataFault (f : Fault)
  | ackFault (f : Fault)
  | markEcn (i : Nat)
  deriving DecidableEq, Repr

variable {S K : Type} (E : Endhost S K)

/-- A flow that has been created and connected. -/
def init (flowsize duration startTime endtime : Nat) : Flow S K where
  now := 0
  src := E.newSrc flowsize duration startTime endtime
  sink := E.newSink
  data := []
  acks := []
  alive := true
  rcvd := []

/-- The source has become `src`; what it sent is in flight. -/
def handOn (s : Flow S K) (src : S) : Flow S K :=
  { s with
    src := src
    data := s.data ++
      ((E.source src).sent.drop (E.source s.src).sent.length).map Sent.pkt }

/-- The source's earliest event, at `time`, is taken out of the event list. -/
def popEvent (s : Flow S K) (time : Nat) : Flow S K :=
  { s with
    now := time
    src := E.setSource s.src
      { E.source s.src with pending := (E.source s.src).pending.erase time } }

/-- The transition function of a flow that is alive. -/
def act (s : Flow S K) : Act → Option (Flow S K)
  | .event =>
      (E.source s.src).pending.min?.bind fun time =>
        if s.now ≤ time then
          let s' := s.popEvent E time
          match E.doNextEvent time (s.data.length + s.acks.length) s'.src with
          | some src => some (s'.handOn E src)
          -- `delete this`
          | none => some { s' with alive := false }
        else none
  | .advance time =>
      -- no event of the source is passed over
      if s.now ≤ time ∧ ∀ w ∈ (E.source s.src).pending, time ≤ w then
        some { s with now := time }
      else none
  | .deliverData i =>
      (deliver s.data i).map fun r =>
        let k := E.sinkReceive s.now r.1 s.sink
        { s with data := r.2, sink := k.1, acks := s.acks ++ [k.2], rcvd := s.rcvd ++ [r.1] }
  | .deliverAck i =>
      (deliver s.acks i).map fun r =>
        { s with acks := r.2 }.handOn E (E.receivePacket s.now r.1 s.src)
  | .dataFault f => (f.apply s.data).map fun data => { s with data := data }
  | .ackFault f => (f.apply s.acks).map fun acks => { s with acks := acks }
  | .markEcn i =>
      s.data[i]?.map fun p => { s with data := s.data.set i { p with ecnFwd := true } }

/-- The transition function. -/
def step (s : Flow S K) (a : Act) : Option (Flow S K) := if s.alive then s.act E a else none

/-- A flow over its network. -/
def system : Lts (Flow S K) Act where
  step := step E

/-! ## What a step does to the source -/

/-- The ack is taken, and does not end the flow. -/
def Takes (s : Flow S K) (a : DataAck) : Prop :=
  E.finished s.src = false ∧ ¬ (E.source s.src).Completes s.now a.ackno

instance (s : Flow S K) (a : DataAck) : Decidable (s.Takes E a) :=
  inferInstanceAs (Decidable (_ ∧ _))

/-- What a step is: the source has an event, an ack or a data packet arrives, or nothing
    happens at either end. -/
inductive Stepped (s : Flow S K) : Act → Flow S K → Prop
  | event {time : Nat} {src : S}
      (hmin : (E.source s.src).pending.min? = some time) (hnow : s.now ≤ time)
      (hnext : E.doNextEvent time (s.data.length + s.acks.length) (s.popEvent E time).src =
        some src) :
      Stepped s .event ((s.popEvent E time).handOn E src)
  | deleted {time : Nat} : Stepped s .event { s.popEvent E time with alive := false }
  | ack {i : Nat} {a : DataAck} {acks : List DataAck} (ha : s.acks[i]? = some a)
      (hacks : ∀ x ∈ acks, x ∈ s.acks) :
      Stepped s (.deliverAck i)
        ({ s with acks := acks }.handOn E (E.receivePacket s.now a s.src))
  | data {i : Nat} {p : DataPacket} {data : List DataPacket} (hp : p ∈ s.data)
      (hdata : ∀ x ∈ data, x ∈ s.data) :
      Stepped s (.deliverData i)
        { s with
          data := data
          sink := (E.sinkReceive s.now p s.sink).1
          acks := s.acks ++ [(E.sinkReceive s.now p s.sink).2]
          rcvd := s.rcvd ++ [p] }
  /-- Time goes on, or the network loses, duplicates or marks a packet. -/
  | network {a : Act} {now : Nat} {data : List DataPacket} {acks : List DataAck}
      (hother : ∀ i, a ≠ .deliverAck i)
      (hdata : ∀ p ∈ data, ∃ q ∈ s.data, q.seqno = p.seqno ∧ q.size = p.size)
      (hacks : ∀ x ∈ acks, x ∈ s.acks) :
      Stepped s a { s with now := now, data := data, acks := acks }

variable {E}

theorem act_of_step {s t : Flow S K} {a : Act} (h : step E s a = some t) :
    s.act E a = some t := by
  unfold step at h
  split_ifs at h
  exact h

theorem alive_of_step {s t : Flow S K} {a : Act} (h : step E s a = some t) : s.alive = true := by
  unfold step at h
  split_ifs at h with hs
  exact hs

/-- What an event of the source is. -/
theorem event_cases {s t : Flow S K} (hstep : step E s .event = some t) :
    ∃ time, (E.source s.src).pending.min? = some time ∧ s.now ≤ time ∧
      ((∃ src, E.doNextEvent time (s.data.length + s.acks.length) (s.popEvent E time).src =
            some src ∧ t = (s.popEvent E time).handOn E src) ∨
        (E.doNextEvent time (s.data.length + s.acks.length) (s.popEvent E time).src = none ∧
          t = { s.popEvent E time with alive := false })) := by
  obtain ⟨time, hmin, h⟩ := Option.bind_eq_some_iff.mp (act_of_step hstep)
  split_ifs at h with hnow
  refine ⟨time, hmin, hnow, ?_⟩
  cases hnext : E.doNextEvent time (s.data.length + s.acks.length) (s.popEvent E time).src with
  | none =>
    simp only [hnext] at h
    cases h
    exact Or.inr ⟨rfl, rfl⟩
  | some src =>
    simp only [hnext] at h
    cases h
    exact Or.inl ⟨src, rfl, rfl⟩

theorem stepped {s t : Flow S K} {a : Act} (hstep : step E s a = some t) : Stepped E s a t := by
  have h := act_of_step hstep
  -- packets that stay as they are
  have hsame : ∀ {data : List DataPacket}, (∀ p ∈ data, p ∈ s.data) →
      ∀ p ∈ data, ∃ q ∈ s.data, q.seqno = p.seqno ∧ q.size = p.size :=
    fun hdata p hp => ⟨p, hdata p hp, rfl, rfl⟩
  cases a with
  | event =>
    obtain ⟨time, hmin, hnow, ⟨src, hnext, rfl⟩ | ⟨-, rfl⟩⟩ := event_cases hstep
    · exact .event hmin hnow hnext
    · exact .deleted
  | advance time =>
    simp only [act] at h
    split_ifs at h
    cases h
    exact .network (fun _ => nofun) (hsame fun _ hp => hp) fun _ ha => ha
  | deliverData i =>
    obtain ⟨⟨p, data⟩, hdel, h⟩ := Option.map_eq_some_iff.mp h
    cases h
    obtain ⟨hp, hdata⟩ := mem_of_deliver hdel
    exact .data hp hdata
  | deliverAck i =>
    obtain ⟨⟨a, acks⟩, hdel, h⟩ := Option.map_eq_some_iff.mp h
    cases h
    obtain ⟨a', ha, heq⟩ := Option.map_eq_some_iff.mp hdel
    cases heq
    exact .ack ha fun x hx => List.mem_of_mem_eraseIdx hx
  | dataFault f =>
    obtain ⟨data, hf, h⟩ := Option.map_eq_some_iff.mp h
    cases h
    exact .network (fun _ => nofun) (hsame (mem_of_fault hf)) fun _ ha => ha
  | ackFault f =>
    obtain ⟨acks, hf, h⟩ := Option.map_eq_some_iff.mp h
    cases h
    exact .network (fun _ => nofun) (hsame fun _ hp => hp) (mem_of_fault hf)
  | markEcn i =>
    obtain ⟨p, hp, h⟩ := Option.map_eq_some_iff.mp h
    cases h
    refine .network (fun _ => nofun) (fun q hq => ?_) fun _ ha => ha
    -- a mark is not part of the data
    rcases List.mem_or_eq_of_mem_set hq with hq | rfl
    · exact ⟨q, hq, rfl, rfl⟩
    · exact ⟨p, List.mem_of_getElem? hp, rfl, rfl⟩

/-- The source changes only in its events and when an ack arrives. -/
theorem src_of_step {s t : Flow S K} {a : Act} (hevent : a ≠ .event)
    (hack : ∀ i, a ≠ .deliverAck i) (hstep : step E s a = some t) : t.src = s.src := by
  cases stepped hstep with
  | event => exact absurd rfl hevent
  | deleted => exact absurd rfl hevent
  | ack => exact absurd rfl (hack _)
  | data => rfl
  | network => rfl

/-- In every step the source makes moves of a sender; an ack is taken only if it is one
    that is delivered. -/
theorem Stepped.moves {s t : Flow S K} {a : Act} (h : Stepped E s a t) :
    DataSource.Moves none (E.source s.src) (E.source t.src) ∨
      ∃ i p, a = .deliverAck i ∧ s.acks[i]? = some p ∧ s.Takes E p ∧
        DataSource.Moves (some p.ackno) (E.source s.src) (E.source t.src) := by
  have hpop : ∀ time,
      DataSource.Moves none (E.source s.src) (E.source (s.popEvent E time).src) := by
    intro time
    simp only [popEvent, E.source_setSource]
    exact (DataSource.Move.schedule _).moves
  -- the network moves nothing of the source; an event or an ack is a move of the data source
  cases h with
  | data => exact Or.inl (DataSource.Moves.refl _)
  | network => exact Or.inl (DataSource.Moves.refl _)
  | @event time _ _ _ hnext => exact Or.inl ((hpop time).trans (E.event_moves _ _ _ _ hnext))
  | @deleted time => exact Or.inl (hpop time)
  | @ack i p acks hp =>
    by_cases htakes : s.Takes E p
    · exact Or.inr ⟨i, p, rfl, hp, htakes, E.receive_moves _ _ _ htakes.1 htakes.2⟩
    · -- the flow is finished, or this ack finishes it
      have hstop : E.finished s.src = true ∨ (E.source s.src).Completes s.now p.ackno := by
        rw [Takes, not_and_or, Bool.not_eq_false, not_not] at htakes
        exact htakes
      have hsame : E.source (E.receivePacket s.now p s.src) = E.source s.src :=
        E.receive_stop _ _ _ hstop
      left
      show DataSource.Moves none _ (E.source (E.receivePacket s.now p s.src))
      rw [hsame]
      exact DataSource.Moves.refl _

/-! ## The network forges nothing -/

/-- The data of the packet is a segment the source has sent. -/
def IsSent (b : DataSource) (p : DataPacket) : Prop :=
  ∃ e ∈ b.sent, e.pkt.seqno = p.seqno ∧ e.pkt.size = p.size

/-- What holds of a flow in every run. -/
structure Inv (E : Endhost S K) (s : Flow S K) : Prop where
  segmented : (E.source s.src).Segmented
  data : ∀ p ∈ s.data, IsSent (E.source s.src) p
  rcvd : ∀ p ∈ s.rcvd, IsSent (E.source s.src) p
  sink : E.dataSink s.sink = DataSink.new.processAll s.rcvd
  acks : ∀ a ∈ s.acks, MSS_BYTES ∣ a.ackno ∧ a.ackno ≤ (E.dataSink s.sink).cumulativeAck

theorem IsSent.mono {b b' : DataSource} {p : DataPacket} (h : IsSent b p)
    (hsent : b.sent <+: b'.sent) : IsSent b' p := by
  obtain ⟨e, he, heq⟩ := h
  exact ⟨e, hsent.subset he, heq⟩

/-- Segments make a cumulative ack on the grid. -/
theorem cumulativeAck_dvd {pkts : List DataPacket} (h : DataSink.OnGrid MSS_BYTES pkts) :
    MSS_BYTES ∣ (DataSink.new.processAll pkts).cumulativeAck := by
  have hpos : 1 ≤ MSS_BYTES := by decide
  obtain ⟨n, hn⟩ := DataSink.reassembled_processAll hpos h (DataSink.reassembled_new MSS_BYTES)
  rw [hn.ack]
  exact Nat.dvd_mul_left _ _

/-- A sink has received every byte up to its cumulative ack. -/
theorem sound_processAll {log pkts : List DataPacket} {d : DataSink} (h : d.Sound log) :
    (d.processAll pkts).Sound (log ++ pkts) := by
  induction pkts generalizing log d with
  | nil =>
    rw [List.append_nil]
    exact h
  | cons p pkts ih =>
    rw [DataSink.processAll_cons, List.append_cons]
    exact ih (DataSink.sound_processDataPacket h)

theorem inv_init (flowsize duration startTime endtime : Nat) :
    Inv E (init E flowsize duration startTime endtime) where
  segmented := by
    show (E.source (E.newSrc flowsize duration startTime endtime)).Segmented
    rw [E.source_newSrc]
    exact DataSource.segmented_new flowsize duration startTime endtime
  data := fun _ hp => absurd hp List.not_mem_nil
  rcvd := fun _ hp => absurd hp List.not_mem_nil
  sink := E.dataSink_newSink
  acks := fun _ ha => absurd ha List.not_mem_nil

/-- When the source has become `src`, what it sent on the way is in flight. -/
theorem inv_handOn {s : Flow S K} {src : S} {ack : Option Nat} (h : Inv E s)
    (hmoves : DataSource.Moves ack (E.source s.src) (E.source src))
    (hack : ∀ a ∈ ack, MSS_BYTES ∣ a) : Inv E (s.handOn E src) where
  segmented := hmoves.segmented hack h.segmented
  data := fun p hp => by
    rcases List.mem_append.mp hp with hp | hp
    · exact (h.data p hp).mono hmoves.grown.sent
    · obtain ⟨e, he, rfl⟩ := List.mem_map.mp hp
      exact ⟨e, List.mem_of_mem_drop he, rfl, rfl⟩
  rcvd := fun p hp => (h.rcvd p hp).mono hmoves.grown.sent
  sink := h.sink
  acks := h.acks

/-- What is in flight may always become less. -/
theorem Inv.of_subset {s t : Flow S K} (h : Inv E s) (hsrc : t.src = s.src)
    (hsink : t.sink = s.sink) (hrcvd : t.rcvd = s.rcvd)
    (hdata : ∀ p ∈ t.data, ∃ q ∈ s.data, q.seqno = p.seqno ∧ q.size = p.size)
    (hacks : ∀ a ∈ t.acks, a ∈ s.acks) : Inv E t where
  segmented := by
    rw [hsrc]
    exact h.segmented
  data := fun p hp => by
    obtain ⟨q, hq, hseq, hsize⟩ := hdata p hp
    obtain ⟨e, he, heq, hes⟩ := h.data q hq
    rw [hsrc]
    exact ⟨e, he, heq.trans hseq, hes.trans hsize⟩
  rcvd := by
    rw [hsrc, hrcvd]
    exact h.rcvd
  sink := by
    rw [hsink, hrcvd]
    exact h.sink
  acks := by
    rw [hsink]
    exact fun a ha => h.acks a (hacks a ha)

/-- A segment reaches the sink, which answers with its new cumulative ack. -/
theorem inv_deliverData {s : Flow S K} {p : DataPacket} {data : List DataPacket} (h : Inv E s)
    (hp : p ∈ s.data) (hdata : ∀ x ∈ data, x ∈ s.data) :
    Inv E { s with
      data := data
      sink := (E.sinkReceive s.now p s.sink).1
      acks := s.acks ++ [(E.sinkReceive s.now p s.sink).2]
      rcvd := s.rcvd ++ [p] } := by
  have hrcvd : ∀ q ∈ s.rcvd ++ [p], IsSent (E.source s.src) q := by
    intro q hq
    rcases List.mem_append.mp hq with hq | hq
    · exact h.rcvd q hq
    · rw [List.mem_singleton.mp hq]
      exact h.data p hp
  -- all that was received lies on the grid of segments, hence so does the cumulative ack
  have hgrid : DataSink.OnGrid MSS_BYTES (s.rcvd ++ [p]) := by
    intro q hq
    obtain ⟨e, he, hseq, hsize⟩ := hrcvd q hq
    obtain ⟨k, hk, hmss⟩ := h.segmented.sent e he
    exact ⟨k, hseq.symm.trans hk, hsize.symm.trans hmss⟩
  have hsink : E.dataSink (E.sinkReceive s.now p s.sink).1 =
      DataSink.new.processAll (s.rcvd ++ [p]) := by
    rw [E.sink_receive, h.sink]
    simp only [DataSink.processAll, List.foldl_append, List.foldl_cons, List.foldl_nil]
  refine
    { segmented := h.segmented
      data := fun q hq => h.data q (hdata q hq)
      rcvd := hrcvd
      sink := hsink
      acks := fun a ha => ?_ }
  have hup : (E.dataSink s.sink).cumulativeAck ≤
      (E.dataSink (E.sinkReceive s.now p s.sink).1).cumulativeAck := by
    rw [E.sink_receive]
    exact DataSink.cumulativeAck_le _ _
  rcases List.mem_append.mp ha with ha | ha
  · exact ⟨(h.acks a ha).1, (h.acks a ha).2.trans hup⟩
  · -- the new ack is the cumulative ack of a sink that has segments only
    rw [List.mem_singleton.mp ha, E.sink_ackno]
    refine ⟨?_, le_rfl⟩
    rw [hsink]
    exact cumulativeAck_dvd hgrid

theorem inv_popEvent {s : Flow S K} (h : Inv E s) (time : Nat) : Inv E (s.popEvent E time) := by
  have hsrc : E.source (s.popEvent E time).src =
      { E.source s.src with pending := (E.source s.src).pending.erase time } :=
    E.source_setSource _ _
  constructor
  · rw [hsrc]
    exact ⟨h.segmented.highestSent, h.segmented.lastAcked, h.segmented.sent⟩
  · rw [hsrc]
    exact h.data
  · rw [hsrc]
    exact h.rcvd
  · exact h.sink
  · exact h.acks

theorem inv_step (s : Flow S K) (a : Act) (t : Flow S K) (h : Inv E s)
    (hstep : (system E).step s a = some t) : Inv E t := by
  -- the source moves, taking only acks on the grid
  have hmoves : ∃ ack, (∀ x ∈ ack, MSS_BYTES ∣ x) ∧
      DataSource.Moves ack (E.source s.src) (E.source t.src) := by
    rcases (stepped hstep).moves with hmoves | ⟨i, p, -, hp, -, hmoves⟩
    · exact ⟨none, nofun, hmoves⟩
    · refine ⟨some p.ackno, fun x hx => ?_, hmoves⟩
      cases hx
      exact (h.acks p (List.mem_of_getElem? hp)).1
  obtain ⟨ack, hgrid, hmoves⟩ := hmoves
  cases stepped hstep with
  | @event time src _ _ hnext =>
    exact inv_handOn (inv_popEvent h time) (E.event_moves _ _ _ _ hnext) fun _ hx => by cases hx
  | @deleted time =>
    exact (inv_popEvent h time).of_subset rfl rfl rfl (fun p hp => ⟨p, hp, rfl, rfl⟩)
      fun _ ha => ha
  | @ack i p acks _ hacks =>
    have hless : Inv E { s with acks := acks } :=
      h.of_subset rfl rfl rfl (fun q hq => ⟨q, hq, rfl, rfl⟩) hacks
    exact inv_handOn hless hmoves hgrid
  | data hp hdata => exact inv_deliverData h hp hdata
  | network _ hdata hacks => exact h.of_subset rfl rfl rfl hdata hacks

/-! ## Acks that overtake the source -/

variable (E) in
/-- An ack that the source takes is not beyond `_highest_sent`. -/
def NoOvertake (s : Flow S K) : Act → Prop
  | .deliverAck i => ∀ a, s.acks[i]? = some a → s.Takes E a → a.ackno ≤ (E.source s.src).highestSent
  | _ => True

/-- Without such acks a source stays ahead. -/
theorem ahead_step {s t : Flow S K} {a : Act} (h : (E.source s.src).Ahead)
    (hguard : s.NoOvertake E a) (hstep : step E s a = some t) : (E.source t.src).Ahead := by
  rcases (stepped hstep).moves with hmoves | ⟨i, p, rfl, hp, htakes, hmoves⟩
  · exact hmoves.ahead (fun _ ha => by cases ha) h
  · -- the ack that is taken is the one the guard is about
    refine hmoves.ahead (fun x hx => ?_) h
    cases hx
    exact hguard p hp htakes

theorem le_step {s t : Flow S K} {a : Act}
    (h : (E.source s.src).lastAcked ≤ (E.source s.src).highestSent)
    (hguard : s.NoOvertake E a) (hstep : step E s a = some t) :
    (E.source t.src).lastAcked ≤ (E.source t.src).highestSent := by
  rcases (stepped hstep).moves with hmoves | ⟨i, p, rfl, hp, htakes, hmoves⟩
  · exact hmoves.le (fun _ ha => by cases ha) h
  · refine hmoves.le (fun x hx => ?_) h
    cases hx
    exact hguard p hp htakes

/-- A guard that fails is about an ack that is delivered and taken. -/
theorem overtaken {s : Flow S K} {a : Act} (h : ¬ s.NoOvertake E a) :
    ∃ i p, a = .deliverAck i ∧ s.acks[i]? = some p ∧ s.Takes E p ∧
      (E.source s.src).highestSent < p.ackno := by
  cases a with
  | deliverAck i =>
    simp only [NoOvertake, not_forall, not_le] at h
    obtain ⟨p, hp, htakes, hlt⟩ := h
    exact ⟨i, p, rfl, hp, htakes, hlt⟩
  | _ => exact absurd trivial h

/-- What an ack that is delivered makes of the source. -/
theorem deliverAck_src {s t : Flow S K} {i : Nat} {p : DataAck} (hp : s.acks[i]? = some p)
    (hstep : step E s (.deliverAck i) = some t) : t.src = E.receivePacket s.now p s.src := by
  cases stepped hstep with
  | ack hp' =>
    rw [hp] at hp'
    cases hp'
    rfl
  | network hother => exact absurd rfl (hother i)

end Flow
end Htsim
end DatacenterNetworking
