/-
  DatacenterNetworking.Htsim.PairGap

  The gap that `PacketPairSink` measures.  The sink takes a packet for the second of a
  pair if the packet before it carried `PP_FIRST` and the segment just below.  A
  retransmission of that segment, and the second packet of a pair that is sent again,
  look the same.

  Here every packet is known by its place in the history of the source (`Traced`).
  `measures_iff_genuine`: all gaps are those between the two packets of one pair in
  exactly those runs in which every packet that looks like a second one, and comes
  later than the first, is one.
-/

import DatacenterNetworking.Htsim.PairPending
import Mathlib.Data.List.Perm.Basic

namespace DatacenterNetworking
namespace Htsim

/-! ## The history of the source -/

/-- The packet at place `j` looks like the second of a pair with first packet `l`. -/
def LooksSecond (sent : List Sent) (l j : Nat) : Prop :=
  ∃ e ∈ sent[l]?, ∃ g ∈ sent[j]?, e.pkt.ppFirst = true ∧ g.pkt.ppFirst = false ∧
    g.pkt.seqno = e.pkt.seqno + MSS_BYTES

instance (sent : List Sent) (l j : Nat) : Decidable (LooksSecond sent l j) :=
  inferInstanceAs (Decidable (∃ e ∈ sent[l]?, _))

/-- The packets at `k` and `k + 1` are a pair: they were sent one after the other, at the same
    time.  One call of `transmitPacketPair` sends such two; a first packet that it sends alone
    has the last segment of the flow, which no packet follows (`paired_run`). -/
def IsPair (sent : List Sent) (k : Nat) : Prop :=
  ∃ e ∈ sent[k]?, ∃ g ∈ sent[k + 1]?, e.pkt.ppFirst = true ∧ g.pkt.ppFirst = false ∧
    g.pkt.seqno = e.pkt.seqno + MSS_BYTES ∧ g.pkt.ts = e.pkt.ts

instance (sent : List Sent) (k : Nat) : Decidable (IsPair sent k) :=
  inferInstanceAs (Decidable (∃ e ∈ sent[k]?, _))

theorem getElem?_of_prefix {α : Type*} {l l' : List α} (h : l <+: l') {i : Nat} {x : α}
    (hx : l[i]? = some x) : l'[i]? = some x := by
  obtain ⟨r, rfl⟩ := h
  rw [List.getElem?_append_left (List.getElem?_eq_some_iff.mp hx).1]
  exact hx

theorem IsPair.mono {sent sent' : List Sent} {k : Nat} (h : IsPair sent k)
    (hpre : sent <+: sent') : IsPair sent' k := by
  obtain ⟨e, he, g, hg, hpair⟩ := h
  exact ⟨e, getElem?_of_prefix hpre he, g, getElem?_of_prefix hpre hg, hpair⟩

/-- Two packets that are sent one after the other. -/
theorem isPair_append {sent : List Sent} {e g : Sent} (hfirst : e.pkt.ppFirst = true)
    (hsecond : g.pkt.ppFirst = false) (hseq : g.pkt.seqno = e.pkt.seqno + MSS_BYTES)
    (hts : g.pkt.ts = e.pkt.ts) : IsPair (sent ++ [e, g]) sent.length :=
  ⟨e, by simp, g, by simp, hfirst, hsecond, hseq, hts⟩

/-- Every first packet has its second right behind it, except one with the last segment of the
    flow, which is sent alone. -/
def Paired (b : DataSource) : Prop :=
  ∀ k, ∀ e ∈ b.sent[k]?, e.pkt.ppFirst = true →
    IsPair b.sent k ∨ (0 < b.flowsize ∧ b.flowsize < e.pkt.seqno + MSS_BYTES)

namespace PairHistory

variable {b b' : DataSource}

/-- Nothing is sent. -/
theorem paired_same (h : Paired b) (hflow : b'.flowsize = b.flowsize) (hsent : b'.sent = b.sent) :
    Paired b' := by
  rw [Paired, hflow, hsent]
  exact h

/-- A packet that is not the first of a pair is sent. -/
theorem paired_append {e : Sent} (h : Paired b) (he : e.pkt.ppFirst = false)
    (hflow : b'.flowsize = b.flowsize) (hsent : b'.sent = b.sent ++ [e]) : Paired b' := by
  intro k f hf hfirst
  rw [hsent] at hf ⊢
  rw [hflow]
  rcases Nat.lt_or_ge k b.sent.length with hlt | hge
  · rw [Option.mem_def, List.getElem?_append_left hlt] at hf
    exact (h k f hf hfirst).imp_left fun hp => hp.mono (List.prefix_append _ _)
  · rw [Option.mem_def, List.getElem?_append_right hge] at hf
    have hmem := List.mem_of_getElem? hf
    rw [List.mem_singleton.mp hmem, he] at hfirst
    cases hfirst

/-- A first packet is sent, and what makes it good. -/
theorem paired_first {e : Sent} {rest : List Sent} (h : Paired b)
    (hrest : ∀ g ∈ rest, g.pkt.ppFirst = false) (hflow : b'.flowsize = b.flowsize)
    (hsent : b'.sent = b.sent ++ e :: rest)
    (hgood : IsPair b'.sent b.sent.length ∨
      (0 < b.flowsize ∧ b.flowsize < e.pkt.seqno + MSS_BYTES)) : Paired b' := by
  intro k f hf hfirst
  rw [hflow]
  rcases Nat.lt_trichotomy k b.sent.length with hlt | rfl | hgt
  · rw [Option.mem_def, hsent, List.getElem?_append_left hlt] at hf
    exact (h k f hf hfirst).imp_left fun hp => hp.mono (hsent ▸ List.prefix_append _ _)
  · rw [Option.mem_def, hsent, List.getElem?_append_right le_rfl, Nat.sub_self,
      List.getElem?_cons_zero] at hf
    cases hf
    exact hgood
  · rw [Option.mem_def, hsent, List.getElem?_append_right hgt.le,
      List.getElem?_cons, if_neg (by omega)] at hf
    rw [hrest f (List.mem_of_getElem? hf)] at hfirst
    cases hfirst

theorem paired_transmitPacketPair {now : Nat} {s : PacedSource} (h : Paired s.toDataSource) :
    Paired (PacketPairSrc.transmitPacketPair now s).toDataSource := by
  simp only [PacketPairSrc.transmitPacketPair]
  split_ifs with hall hblocked hlast
  · exact h
  · exact h
  · -- the last segment of the flow goes alone
    rw [PacedSource.armRto_source] at hlast ⊢
    obtain ⟨hpos, hle⟩ := hlast
    have hle' : s.flowsize ≤ s.highestSent + MSS_BYTES := hle
    have hnone : ∀ g ∈ ([] : List Sent), g.pkt.ppFirst = false :=
      fun _ hg => absurd hg List.not_mem_nil
    refine paired_first h hnone rfl rfl (Or.inr ⟨hpos, ?_⟩)
    show s.flowsize < s.highestSent + 1 + MSS_BYTES
    omega
  · have hsource : ((s.sendNext now true).armRto now).toDataSource =
        (s.sendNext now true).toDataSource := PacedSource.armRto_source _
    -- two segments go out, the first flagged and the second right behind it
    have hsent : ((s.sendNext now true |>.armRto now).sendNext now false).sent = s.sent ++
        [⟨{ DataPacket.newpkt (s.highestSent + 1) now with ppFirst := true }, s.lastAcked⟩,
          ⟨{ DataPacket.newpkt (s.highestSent + MSS_BYTES + 1) now with ppFirst := false },
            s.lastAcked⟩] := by
      show ((s.sendNext now true).armRto now).sent ++ [_] = _
      rw [hsource]
      exact List.append_assoc _ _ _
    have hflow : ((s.sendNext now true |>.armRto now).sendNext now false).flowsize =
        s.flowsize := by
      show ((s.sendNext now true).armRto now).flowsize = _
      rw [hsource]
      rfl
    refine paired_first h (fun g hg => ?_) hflow hsent (Or.inl ?_)
    · rw [List.mem_singleton.mp hg]
    · rw [hsent]
      refine isPair_append rfl rfl ?_ rfl
      show s.highestSent + MSS_BYTES + 1 = s.highestSent + 1 + MSS_BYTES
      omega

/-- A retransmission carries no flag. -/
theorem paired_retransmitPacket {now : Nat} {s : PacedSource} (h : Paired s.toDataSource) :
    Paired (s.retransmitPacket now).toDataSource := by
  rw [PacedSource.retransmitPacket_source]
  split_ifs
  · exact paired_append h rfl rfl rfl
  · exact paired_append h rfl rfl rfl

theorem paired_processAck {now ackno : Nat} {s : PacedSource} (h : Paired s.toDataSource) :
    Paired (s.processAck now ackno).toDataSource := by
  simp only [PacedSource.processAck, PacedSource.newAck, PacedSource.dupAck]
  split_ifs
  · exact h
  · exact paired_retransmitPacket h
  · exact h
  · exact h
  · exact h
  · exact paired_retransmitPacket h

theorem paired_sourceIsPending {time : Nat} (h : Paired b) : Paired (b.sourceIsPending time) := by
  obtain ⟨hflow, -, -, -, hsent, -⟩ := DataSource.sourceIsPending_spec b time
  exact paired_same h hflow hsent

section

variable {D : Type} {float : PairFloat D} {now : Nat} {s t : PacketPairSrc D}

theorem paired_goOn (h : Paired s.toDataSource) :
    Paired (PacketPairSrc.goOn float now s).toDataSource := by
  simp only [PacketPairSrc.goOn]
  split_ifs
  · exact h
  · exact paired_sourceIsPending (paired_transmitPacketPair h)
  · exact paired_sourceIsPending h

theorem paired_doNextEvent {nPackets : Nat} (h : Paired s.toDataSource)
    (hnext : PacketPairSrc.doNextEvent float now nPackets s = some t) :
    Paired t.toDataSource := by
  unfold PacketPairSrc.doNextEvent at hnext
  split_ifs at hnext
  · cases hnext
    exact paired_sourceIsPending
      (paired_transmitPacketPair (s := { s.toPacedSource with
        highestSent := 0, lastAcked := 0, bdpEstimate := 2 * MSS_BYTES }) h)
  · cases hnext
    exact paired_goOn h
  · cases hnext
    exact paired_goOn (s := { s with toPacedSource := s.toPacedSource.timeout now })
      (paired_retransmitPacket h)
  · cases hnext
    exact paired_goOn h

theorem paired_receivePacket {a : DataAck} (h : Paired s.toDataSource) :
    Paired (PacketPairSrc.receivePacket float now a s).toDataSource := by
  by_cases hstop : s.state = .finish ∨ s.Completes now a.ackno
  · rw [PacketPairSrc.receivePacket_stop hstop]
    exact h
  obtain ⟨hstate, hgo⟩ := not_or.mp hstop
  rcases Nat.lt_or_ge a.ackno s.lastAcked with hold | hnew
  · rw [PacketPairSrc.receivePacket_old hstate hgo hold]
    exact h
  · rw [PacketPairSrc.receivePacket_eq hstate hgo hnew]
    apply paired_processAck
    -- the first gap sends a pair
    have hrate : Paired (PacketPairSrc.updateRate float a.seqno
        (PacketPairSrc.updateEstimates float now a s)).toDataSource := by
      rw [PacketPairSrc.updateRate_source, PacketPairSrc.updateEstimates_source]
      exact h
    simp only [PacketPairSrc.takeGap]
    split_ifs
    · exact paired_sourceIsPending (paired_transmitPacketPair hrate)
    · exact hrate
    · rw [PacketPairSrc.updateEstimates_source]
      exact h

end

end PairHistory

namespace PacketPairSrc

variable {D : Type} {float : PairFloat D}

/-- In every run a first packet is the first of a pair, or has the last segment of the flow. -/
theorem paired_run {flowsize duration startTime endtime : Nat} {as : List Flow.Act}
    {s : PairFlow D}
    (hrun : (Flow.system (packetPairEndhost float)).run
      (Flow.init (packetPairEndhost float) flowsize duration startTime endtime) as = some s) :
    Paired s.src.toDataSource := by
  refine Lts.run_induction (I := fun t : PairFlow D => Paired t.src.toDataSource)
    (fun s a t h hstep => ?_) ?_ hrun
  · cases Flow.stepped hstep with
    | @event time src _ _ hnext =>
      exact PairHistory.paired_doNextEvent (s := (s.popEvent (packetPairEndhost float) time).src)
        h hnext
    | deleted => exact h
    | ack => exact PairHistory.paired_receivePacket h
    | data => exact h
    | network => exact h
  · obtain ⟨-, -, -, -, hsent, -⟩ := DataSource.new_spec flowsize duration startTime endtime
    intro k e he
    have hnone : (DataSource.new flowsize duration startTime endtime).sent[k]? = some e := he
    rw [hsent] at hnone
    cases hnone

/-! ## The packets on their way -/

/-- A flow with the places in the history of the source: `tags` are those of the data packets in
    flight, and `arrivals` those of the packets that have reached the sink, with the times. -/
structure Traced (D : Type) where
  flow : PairFlow D
  tags : List Nat
  arrivals : List (Nat × Nat)

namespace Traced

/-- The packets that stay in flight. -/
def keptTags (c : Traced D) : Flow.Act → List Nat
  | .deliverData i => c.tags.eraseIdx i
  | .dataFault (.lose i) => c.tags.eraseIdx i
  | _ => c.tags

/-- What is sent in a step comes last. -/
def tagsAfter (c : Traced D) (t : PairFlow D) (a : Flow.Act) : List Nat :=
  c.keptTags a ++
    List.range' c.flow.src.sent.length (t.src.sent.length - c.flow.src.sent.length)

def arrivalsAfter (c : Traced D) : Flow.Act → List (Nat × Nat)
  | .deliverData i => c.arrivals ++ (c.tags[i]?.map fun j => (c.flow.now, j)).toList
  | _ => c.arrivals

variable (float) in
/-- The flow over a network that may lose, delay and reorder packets. -/
def step (c : Traced D) (a : Flow.Act) : Option (Traced D) :=
  match a with
  | .dataFault (.duplicate _) => none
  | _ => (Flow.step (packetPairEndhost float) c.flow a).map fun t =>
      { flow := t, tags := c.tagsAfter t a, arrivals := c.arrivalsAfter a }

variable (float) in
/-- The system with the places. -/
def system : Lts (Traced D) Flow.Act where
  step := step float

variable (float) in
/-- Before the first event. -/
def init (flowsize duration startTime endtime : Nat) : Traced D where
  flow := Flow.init (packetPairEndhost float) flowsize duration startTime endtime
  tags := []
  arrivals := []

/-- No packet arrives twice. -/
def Once (c : Traced D) : Prop := (c.arrivals.map Prod.snd).Nodup

variable (float) in
/-- If the ack of a packet carries a gap, the packet is the second of a pair, and the gap is the
    time since the first arrived. -/
def Measures (c : Traced D) : Flow.Act → Prop
  | .deliverData i => ∀ d ∈ c.step float (.deliverData i), ∀ ack ∈ d.flow.acks.getLast?,
      ack.seqno ≠ 0 → ∃ x ∈ c.arrivals, c.tags[i]? = some (x.2 + 1) ∧
        IsPair c.flow.src.sent x.2 ∧ ack.seqno = c.flow.now - x.1
  | _ => True

instance (c : Traced D) (a : Flow.Act) : Decidable (c.Measures float a) :=
  match a with
  | .deliverData _ => inferInstanceAs (Decidable (∀ d ∈ _, _))
  | .event | .advance _ | .deliverAck _ | .dataFault _ | .ackFault _ | .markEcn _ =>
      inferInstanceAs (Decidable True)

/-- If a packet looks like the second of a pair, of which the first was the last to arrive and
    came before, it is the second of a pair of which the first came then. -/
def Genuine (c : Traced D) : Flow.Act → Prop
  | .deliverData i => ∀ j, c.tags[i]? = some j → ∀ x, c.arrivals.getLast? = some x →
      x.1 < c.flow.now → LooksSecond c.flow.src.sent x.2 j →
        ∃ y ∈ c.arrivals, y.1 = x.1 ∧ IsPair c.flow.src.sent y.2 ∧ j = y.2 + 1
  | _ => True

/-! ### What holds in every run -/

/-- The packet has the segment and the flag of the one at place `j`. -/
def Names (sent : List Sent) (p : DataPacket) (j : Nat) : Prop :=
  ∃ e, sent[j]? = some e ∧ e.pkt.seqno = p.seqno ∧ e.pkt.ppFirst = p.ppFirst

/-- The sink remembers the last packet that arrived, if it was a first one. -/
def Remembers (sent : List Sent) (last : Option (Nat × Nat)) (k : PacketPairSink) : Prop :=
  match last with
  | none => k.firstPairSeqno = 0
  | some (time, l) => ∃ e, sent[l]? = some e ∧
      if e.pkt.ppFirst = true then k.firstPairSeqno = e.pkt.seqno ∧ k.firstPairTs = time
      else k.firstPairSeqno = 0

variable (float) in
/-- The tags are those of the packets, and the sink has seen what arrived. -/
structure Inv (c : Traced D) : Prop where
  flow : c.flow.Inv (packetPairEndhost float)
  length : c.tags.length = c.flow.data.length
  names : ∀ (i : Nat) (p : DataPacket) (j : Nat), c.flow.data[i]? = some p →
    c.tags[i]? = some j → Names c.flow.src.sent p j
  bound : ∀ j ∈ c.tags ++ c.arrivals.map Prod.snd, j < c.flow.src.sent.length
  once : (c.tags ++ c.arrivals.map Prod.snd).Nodup
  past : ∀ x ∈ c.arrivals, x.1 ≤ c.flow.now
  sink : Remembers c.flow.src.sent c.arrivals.getLast? c.flow.sink

theorem Names.mono {sent sent' : List Sent} {p : DataPacket} {j : Nat} (h : Names sent p j)
    (hpre : sent <+: sent') : Names sent' p j := by
  obtain ⟨e, he, heq⟩ := h
  exact ⟨e, getElem?_of_prefix hpre he, heq⟩

theorem Remembers.mono {sent sent' : List Sent} {last : Option (Nat × Nat)} {k : PacketPairSink}
    (h : Remembers sent last k) (hpre : sent <+: sent') : Remembers sent' last k := by
  cases last with
  | none => exact h
  | some x =>
    obtain ⟨e, he, heq⟩ := h
    exact ⟨e, getElem?_of_prefix hpre he, heq⟩

theorem inv_init (flowsize duration startTime endtime : Nat) :
    (init float flowsize duration startTime endtime).Inv float where
  flow := Flow.inv_init flowsize duration startTime endtime
  length := rfl
  names := fun _ _ _ _ hj => by cases hj
  bound := fun _ hj => absurd hj List.not_mem_nil
  once := List.nodup_nil
  past := fun _ hx => absurd hx List.not_mem_nil
  sink := rfl

variable {c d : Traced D} {t : PairFlow D}

/-- The source sends, and nothing arrives. -/
theorem inv_send (h : c.Inv float) (hflow : t.Inv (packetPairEndhost float))
    (hsent : c.flow.src.sent <+: t.src.sent)
    (hdata : t.data = c.flow.data ++
      (t.src.sent.drop c.flow.src.sent.length).map Sent.pkt)
    (hsink : t.sink = c.flow.sink) (hnow : c.flow.now ≤ t.now) :
    Inv float
      { flow := t
        tags := c.tags ++
          List.range' c.flow.src.sent.length (t.src.sent.length - c.flow.src.sent.length)
        arrivals := c.arrivals } where
  flow := hflow
  length := by
    rw [hdata]
    simp [h.length]
  names := fun i p j hp hj => by
    rw [hdata] at hp
    rcases Nat.lt_or_ge i c.flow.data.length with hlt | hge
    · rw [List.getElem?_append_left hlt] at hp
      rw [List.getElem?_append_left (h.length ▸ hlt)] at hj
      exact (h.names i p j hp hj).mono hsent
    · -- one that is sent now
      rw [List.getElem?_append_right hge, List.getElem?_map, List.getElem?_drop] at hp
      rw [List.getElem?_append_right (h.length ▸ hge), h.length] at hj
      obtain ⟨e, he, rfl⟩ := Option.map_eq_some_iff.mp hp
      have hlt : i - c.flow.data.length <
          t.src.sent.length - c.flow.src.sent.length := by
        have hlen := (List.getElem?_eq_some_iff.mp he).1
        omega
      rw [List.getElem?_range' hlt, Nat.one_mul] at hj
      cases hj
      exact ⟨e, he, rfl, rfl⟩
  bound := fun j hj => by
    show j < t.src.sent.length
    have hle := hsent.length_le
    rcases List.mem_append.mp hj with hj | hj
    · rcases List.mem_append.mp hj with hold | hnew
      · exact (h.bound j (List.mem_append_left _ hold)).trans_le hle
      · have hrange := List.mem_range'_1.mp hnew
        omega
    · exact (h.bound j (List.mem_append_right _ hj)).trans_le hle
  once := by
    -- the new places are beyond the old ones
    obtain ⟨htags, harr, hne⟩ := List.nodup_append.mp h.once
    have hbeyond : ∀ a ∈ c.tags ++ c.arrivals.map Prod.snd, ∀ b ∈ List.range'
        c.flow.src.sent.length (t.src.sent.length - c.flow.src.sent.length), a ≠ b := by
      intro a ha b hb
      have hlt := h.bound a ha
      have hge := (List.mem_range'_1.mp hb).1
      omega
    have hsent := List.nodup_append.mpr ⟨htags, List.nodup_range' 1,
      fun a ha b hb => hbeyond a (List.mem_append_left _ ha) b hb⟩
    refine List.nodup_append.mpr ⟨hsent, harr, fun a ha b hb => ?_⟩
    rcases List.mem_append.mp ha with hold | hnew
    · exact hne a hold b hb
    · exact (hbeyond b (List.mem_append_right _ hb) a hnew).symm
  past := fun x hx => (h.past x hx).trans hnow
  sink := by
    show Remembers t.src.sent _ t.sink
    rw [hsink]
    exact h.sink.mono hsent

/-- A packet is taken out of flight, and its tag with it. -/
theorem Inv.taken (h : c.Inv float) (i : Nat) :
    (c.tags.eraseIdx i).length = (c.flow.data.eraseIdx i).length ∧
      ∀ (l : Nat) (p : DataPacket) (j : Nat), (c.flow.data.eraseIdx i)[l]? = some p →
        (c.tags.eraseIdx i)[l]? = some j → Names c.flow.src.sent p j := by
  refine ⟨?_, fun l p j hp hj => ?_⟩
  · rw [List.length_eraseIdx, List.length_eraseIdx, h.length]
  · rw [List.getElem?_eraseIdx] at hp hj
    split_ifs at hp hj
    · exact h.names l p j hp hj
    · exact h.names (l + 1) p j hp hj

/-- Packets may be lost or marked, and time may go on. -/
theorem inv_network {tags : List Nat} (h : c.Inv float)
    (hflow : t.Inv (packetPairEndhost float)) (hsrc : t.src = c.flow.src)
    (hsink : t.sink = c.flow.sink) (hnow : c.flow.now ≤ t.now) (hsub : tags.Sublist c.tags)
    (hlength : tags.length = t.data.length)
    (hnames : ∀ (i : Nat) (p : DataPacket) (j : Nat), t.data[i]? = some p →
      tags[i]? = some j → Names c.flow.src.sent p j) :
    Inv float { flow := t, tags := tags, arrivals := c.arrivals } where
  flow := hflow
  length := hlength
  names := by
    show ∀ (i : Nat) (p : DataPacket) (j : Nat), _ → _ → Names t.src.sent p j
    rw [hsrc]
    exact hnames
  bound := fun j hj => by
    show j < t.src.sent.length
    rw [hsrc]
    exact h.bound j ((hsub.append (List.Sublist.refl _)).subset hj)
  once := h.once.sublist (hsub.append (List.Sublist.refl _))
  past := fun x hx => (h.past x hx).trans hnow
  sink := by
    show Remembers t.src.sent _ t.sink
    rw [hsrc, hsink]
    exact h.sink

/-! ### The sink -/

/-- A segment starts right behind whole segments. -/
def Segment (seqno : Nat) : Prop := ∃ n, seqno = n * MSS_BYTES + 1

theorem sub64_segment_ne {p : Nat} (hp : Segment p) : sub64 p MSS_BYTES ≠ 0 := by
  have hmss : MSS_BYTES = 1500 := rfl
  obtain ⟨m, rfl⟩ := hp
  simp only [sub64, hmss]
  split_ifs
  · omega
  · omega

/-- The comparison of the sink does not wrap. -/
theorem eq_sub64_segment {f p : Nat} (hf : Segment f) (hp : Segment p) :
    f = sub64 p MSS_BYTES ↔ p = f + MSS_BYTES := by
  have hmss : MSS_BYTES = 1500 := rfl
  obtain ⟨m, rfl⟩ := hp
  obtain ⟨n, rfl⟩ := hf
  simp only [sub64, hmss]
  split_ifs
  · omega
  · -- the first segment has none below it
    omega

theorem remembers_measure {sent : List Sent} {k : PacketPairSink} {p : DataPacket} {j : Nat}
    (now : Nat) (hj : Names sent p j) :
    Remembers sent (some (now, j)) (PacketPairSink.measure now p k) := by
  obtain ⟨e, he, hseq, hfirst⟩ := hj
  refine ⟨e, he, ?_⟩
  rw [hfirst]
  by_cases hp : p.ppFirst = true
  · rw [if_pos hp, PacketPairSink.measure, if_pos hp]
    exact ⟨hseq.symm, rfl⟩
  · rw [if_neg hp, PacketPairSink.measure, if_neg hp]

/-- A gap is measured for what looks like a second packet, and for nothing else. -/
theorem pktpairdiff_measure {sent : List Sent} {last : Option (Nat × Nat)} {k : PacketPairSink}
    {p : DataPacket} {j now : Nat} (hseg : ∀ e ∈ sent, Segment e.pkt.seqno)
    (hrem : Remembers sent last k) (hj : Names sent p j) (hpast : ∀ x ∈ last, x.1 ≤ now) :
    (∀ x ∈ last, LooksSecond sent x.2 j →
        (PacketPairSink.measure now p k).pktpairdiff = now - x.1) ∧
      ((∀ x ∈ last, ¬ LooksSecond sent x.2 j) →
        (PacketPairSink.measure now p k).pktpairdiff = 0) := by
  obtain ⟨g, hg, hgseq, hgfirst⟩ := hj
  have hsegp : Segment p.seqno := hgseq ▸ hseg g (List.mem_of_getElem? hg)
  by_cases hpfirst : p.ppFirst = true
  · -- a first packet
    have hnone : ∀ l, ¬ LooksSecond sent l j := by
      rintro l ⟨e, -, g', hg', -, hsecond, -⟩
      rw [Option.mem_def, hg] at hg'
      cases hg'
      rw [hgfirst, hpfirst] at hsecond
      cases hsecond
    refine ⟨fun x _ hlooks => absurd hlooks (hnone x.2), fun _ => ?_⟩
    simp only [PacketPairSink.measure, if_pos hpfirst]
  have hgap : (PacketPairSink.measure now p k).pktpairdiff =
      if k.firstPairSeqno = sub64 p.seqno MSS_BYTES then sub64 now k.firstPairTs else 0 := by
    simp only [PacketPairSink.measure, if_neg hpfirst]
  have hsecond : g.pkt.ppFirst = false := hgfirst.trans (Bool.not_eq_true _ ▸ hpfirst)
  rw [hgap]
  -- the gap is measured against the packet taken last, if it was the first of a pair
  cases last with
  | none =>
    have hzero : k.firstPairSeqno = 0 := hrem
    refine ⟨fun x hx => absurd hx (Option.not_mem_none x), fun _ => ?_⟩
    rw [hzero, if_neg (sub64_segment_ne hsegp).symm]
  | some x =>
    obtain ⟨e, he, hmem⟩ := hrem
    have hlooks : LooksSecond sent x.2 j ↔
        e.pkt.ppFirst = true ∧ p.seqno = e.pkt.seqno + MSS_BYTES := by
      constructor
      · rintro ⟨e', he', g', hg', hfirst, -, hseq⟩
        rw [Option.mem_def, he] at he'
        rw [Option.mem_def, hg] at hg'
        cases he'
        cases hg'
        exact ⟨hfirst, hgseq ▸ hseq⟩
      · rintro ⟨hfirst, hseq⟩
        exact ⟨e, he, g, hg, hfirst, hsecond, hgseq.trans hseq⟩
    by_cases hfirst : e.pkt.ppFirst = true
    · rw [if_pos hfirst] at hmem
      have hiff := eq_sub64_segment (hseg e (List.mem_of_getElem? he)) hsegp
      rw [hmem.1, hmem.2]
      refine ⟨fun y hy hl => ?_, fun hno => ?_⟩
      · cases hy
        have hpast' := hpast _ rfl
        rw [if_pos (hiff.mpr (hlooks.mp hl).2), sub64, if_pos hpast']
      · rw [if_neg fun heq => hno x rfl (hlooks.mpr ⟨hfirst, hiff.mp heq⟩)]
    · rw [if_neg hfirst] at hmem
      rw [hmem, if_neg (sub64_segment_ne hsegp).symm]
      refine ⟨fun y hy hl => ?_, fun _ => rfl⟩
      cases hy
      exact absurd (hlooks.mp hl).1 hfirst

/-- A packet reaches the sink. -/
theorem inv_arrive {i j : Nat} {p : DataPacket} (h : c.Inv float)
    (hflow : t.Inv (packetPairEndhost float)) (hp : c.flow.data[i]? = some p)
    (hj : c.tags[i]? = some j) (hsrc : t.src = c.flow.src) (hnow : t.now = c.flow.now)
    (hdata : t.data = c.flow.data.eraseIdx i)
    (hsink : t.sink = (PacketPairSink.receivePacket c.flow.now p c.flow.sink).1) :
    Inv float
      { flow := t, tags := c.tags.eraseIdx i, arrivals := c.arrivals ++ [(c.flow.now, j)] } := by
  -- the place moves from the one list to the other
  obtain ⟨hi, hget⟩ := List.getElem?_eq_some_iff.mp hj
  have hperm : (c.tags.eraseIdx i ++ (c.arrivals ++ [(c.flow.now, j)]).map Prod.snd).Perm
      (c.tags ++ c.arrivals.map Prod.snd) := by
    have hmove : (j :: c.tags.eraseIdx i).Perm c.tags := by
      rw [← hget]
      exact List.getElem_cons_eraseIdx_perm hi
    rw [List.map_append, ← List.append_assoc]
    exact (List.perm_append_singleton _ _).trans (hmove.append_right _)
  obtain ⟨hlength, hnames⟩ := h.taken i
  refine ⟨hflow, ?_, fun l q m hq hm => ?_, fun m hm => ?_, hperm.nodup_iff.mpr h.once,
    fun x hx => ?_, ?_⟩
  · show (c.tags.eraseIdx i).length = t.data.length
    rw [hdata, hlength]
  · show Names t.src.sent q m
    rw [hsrc]
    rw [hdata] at hq
    exact hnames l q m hq hm
  · show m < t.src.sent.length
    rw [hsrc]
    exact h.bound m (hperm.subset hm)
  · show x.1 ≤ t.now
    rw [hnow]
    rcases List.mem_append.mp hx with hold | hnew
    · exact h.past x hold
    · rw [List.mem_singleton.mp hnew]
  · show Remembers t.src.sent (c.arrivals ++ [(c.flow.now, j)]).getLast? t.sink
    rw [List.getLast?_concat, hsrc, hsink]
    exact remembers_measure _ (h.names i p j hp hj)

/-! ### Steps -/

/-- What the source sends in a step is in flight. -/
theorem sends_handOn (float : PairFloat D) {s : PairFlow D} {src : PacketPairSrc D}
    {ack : Option Nat} (hmoves : DataSource.Moves ack s.src.toDataSource src.toDataSource) :
    s.src.sent <+: (s.handOn (packetPairEndhost float) src).src.sent ∧
      (s.handOn (packetPairEndhost float) src).data = s.data ++
        ((s.handOn (packetPairEndhost float) src).src.sent.drop s.src.sent.length).map Sent.pkt :=
  ⟨hmoves.grown.sent, rfl⟩

theorem inv_event (h : c.Inv float) (hstep : c.step float .event = some d) : d.Inv float := by
  obtain ⟨t, ht, rfl⟩ := Option.map_eq_some_iff.mp hstep
  have hflow := Flow.inv_step _ _ _ h.flow ht
  obtain ⟨time, -, hnow, ⟨src, hnext, rfl⟩ | ⟨-, rfl⟩⟩ := Flow.event_cases ht
  · obtain ⟨hsent, hdata⟩ := sends_handOn float
      (s := c.flow.popEvent (packetPairEndhost float) time) (doNextEvent_moves hnext)
    exact inv_send h hflow hsent hdata rfl hnow
  · -- a source that deletes itself sends nothing
    refine inv_send h hflow List.prefix_rfl ?_ rfl hnow
    show c.flow.data = c.flow.data ++ (c.flow.src.sent.drop c.flow.src.sent.length).map Sent.pkt
    rw [List.drop_length, List.map_nil, List.append_nil]

theorem inv_deliverAck {i : Nat} (h : c.Inv float)
    (hstep : c.step float (.deliverAck i) = some d) : d.Inv float := by
  obtain ⟨t, ht, rfl⟩ := Option.map_eq_some_iff.mp hstep
  have hflow := Flow.inv_step _ _ _ h.flow ht
  have hact := Flow.act_of_step ht
  obtain ⟨⟨a, acks⟩, -, rfl⟩ := Option.map_eq_some_iff.mp hact
  by_cases hstop : c.flow.src.state = .finish ∨ c.flow.src.Completes c.flow.now a.ackno
  · -- it changes no counter
    have hsame : (receivePacket float c.flow.now a c.flow.src).toDataSource =
        c.flow.src.toDataSource := receivePacket_stop hstop
    exact inv_send h hflow (prefix_of_eq (congrArg DataSource.sent hsame)) rfl rfl le_rfl
  · obtain ⟨hstate, hgo⟩ := not_or.mp hstop
    exact inv_send h hflow (receivePacket_moves hstate hgo).grown.sent rfl rfl le_rfl

/-- A step in which the source is not involved sends nothing. -/
theorem tagsAfter_of_src {a : Flow.Act} (hsrc : t.src = c.flow.src) :
    c.tagsAfter t a = c.keptTags a := by
  rw [tagsAfter, hsrc, Nat.sub_self, List.range'_zero, List.append_nil]

/-- What the arrival of a packet makes of the flow. -/
theorem deliverData_cases {i : Nat} (h : c.Inv float)
    (hstep : c.step float (.deliverData i) = some d) :
    ∃ p j, c.flow.data[i]? = some p ∧ c.tags[i]? = some j ∧ d.Inv float ∧
      d.flow.acks = c.flow.acks ++
        [(PacketPairSink.receivePacket c.flow.now p c.flow.sink).2] := by
  obtain ⟨t, ht, rfl⟩ := Option.map_eq_some_iff.mp hstep
  have hflow := Flow.inv_step _ _ _ h.flow ht
  have hact := Flow.act_of_step ht
  obtain ⟨⟨p, data⟩, hdel, rfl⟩ := Option.map_eq_some_iff.mp hact
  obtain ⟨p', hp, heq⟩ := Option.map_eq_some_iff.mp hdel
  cases heq
  have hlt := (List.getElem?_eq_some_iff.mp hp).1
  obtain ⟨j, hj⟩ : ∃ j, c.tags[i]? = some j :=
    ⟨_, List.getElem?_eq_getElem (h.length ▸ hlt)⟩
  refine ⟨p, j, hp, hj, ?_, rfl⟩
  have harr : c.arrivalsAfter (.deliverData i) = c.arrivals ++ [(c.flow.now, j)] := by
    rw [arrivalsAfter, hj]
    rfl
  rw [harr, tagsAfter_of_src (by rfl)]
  exact inv_arrive h hflow hp hj rfl rfl rfl rfl

theorem inv_step {a : Flow.Act} (h : c.Inv float) (hstep : c.step float a = some d) :
    d.Inv float := by
  -- the events and acks move the source; what the network does keeps the names of its packets
  cases a with
  | event => exact inv_event h hstep
  | deliverAck i => exact inv_deliverAck h hstep
  | deliverData i =>
    obtain ⟨_, _, -, -, hinv, -⟩ := deliverData_cases h hstep
    exact hinv
  | advance time =>
    obtain ⟨t, ht, rfl⟩ := Option.map_eq_some_iff.mp hstep
    have hflow := Flow.inv_step _ _ _ h.flow ht
    have hact := Flow.act_of_step ht
    simp only [Flow.act] at hact
    split_ifs at hact with hnow
    cases hact
    rw [tagsAfter_of_src (by rfl)]
    exact inv_network h hflow rfl rfl hnow.1 (List.Sublist.refl _) h.length h.names
  | dataFault f =>
    cases f with
    | duplicate i => cases hstep
    | lose i =>
      obtain ⟨t, ht, rfl⟩ := Option.map_eq_some_iff.mp hstep
      have hflow := Flow.inv_step _ _ _ h.flow ht
      obtain ⟨data, hdata, rfl⟩ := Option.map_eq_some_iff.mp (Flow.act_of_step ht)
      obtain ⟨p, -, rfl⟩ := Option.map_eq_some_iff.mp hdata
      rw [tagsAfter_of_src (by rfl)]
      obtain ⟨hlength, hnames⟩ := h.taken i
      exact inv_network h hflow rfl rfl le_rfl (List.eraseIdx_sublist _ _) hlength hnames
  | ackFault f =>
    obtain ⟨t, ht, rfl⟩ := Option.map_eq_some_iff.mp hstep
    have hflow := Flow.inv_step _ _ _ h.flow ht
    obtain ⟨acks, -, rfl⟩ := Option.map_eq_some_iff.mp (Flow.act_of_step ht)
    rw [tagsAfter_of_src (by rfl)]
    exact inv_network h hflow rfl rfl le_rfl (List.Sublist.refl _) h.length h.names
  | markEcn i =>
    obtain ⟨t, ht, rfl⟩ := Option.map_eq_some_iff.mp hstep
    have hflow := Flow.inv_step _ _ _ h.flow ht
    obtain ⟨p, hp, rfl⟩ := Option.map_eq_some_iff.mp (Flow.act_of_step ht)
    rw [tagsAfter_of_src (by rfl)]
    refine inv_network h hflow rfl rfl le_rfl (List.Sublist.refl _) ?_ fun l q m hq hm => ?_
    · rw [List.length_set]
      exact h.length
    · -- a mark changes neither the segment nor the flag
      rw [List.getElem?_set] at hq
      split_ifs at hq with heq
      · cases hq
        rw [heq] at hp
        exact h.names l p m hp hm
      · exact h.names l q m hq hm

/-- Every segment that was sent starts on the grid. -/
theorem segment_of_inv (h : c.Inv float) : ∀ e ∈ c.flow.src.sent, Segment e.pkt.seqno := by
  intro e he
  obtain ⟨n, hn, -⟩ := h.flow.segmented.sent e he
  exact ⟨n, hn⟩

/-- The gaps of one step are right exactly if the packet that arrives is what it looks like. -/
theorem measures_iff {a : Flow.Act} (h : c.Inv float) (hstep : c.step float a = some d) :
    c.Measures float a ↔ c.Genuine a := by
  cases a with
  | deliverData i =>
    obtain ⟨p, j, hp, hj, -, hacks⟩ := deliverData_cases h hstep
    have hnames := h.names i p j hp hj
    obtain ⟨hgap, hnone⟩ := pktpairdiff_measure (k := { c.flow.sink with
        toDataSink := c.flow.sink.processDataPacket p }) (segment_of_inv h) h.sink hnames
      fun x hx => h.past x (List.mem_of_getLast? hx)
    have hack : (PacketPairSink.receivePacket c.flow.now p c.flow.sink).2.seqno =
        (PacketPairSink.measure c.flow.now p { c.flow.sink with
          toDataSink := c.flow.sink.processDataPacket p }).pktpairdiff := rfl
    constructor
    · intro hmeas m hm x hx hlt hlooks
      cases hj.symm.trans hm
      -- the gap is not zero, so the ack is right about it
      have hseq := hack.trans (hgap x hx hlooks)
      obtain ⟨y, hy, htag, hpair, hdiff⟩ := hmeas d hstep _
        (by rw [hacks]; exact List.getLast?_concat) (by omega)
      have hpast := h.past y hy
      rw [hj] at htag
      exact ⟨y, hy, by omega, hpair, Option.some.inj htag⟩
    · intro hgen d' hd' ack hack' hne
      cases hstep.symm.trans hd'
      rw [hacks, List.getLast?_concat] at hack'
      cases hack'
      rw [hack] at hne ⊢
      by_cases hlooks : ∃ x ∈ c.arrivals.getLast?, LooksSecond c.flow.src.sent x.2 j
      · obtain ⟨x, hx, hlooks⟩ := hlooks
        rw [hgap x hx hlooks] at hne ⊢
        obtain ⟨y, hy, htime, hpair, heq⟩ := hgen j hj x hx (by omega) hlooks
        exact ⟨y, hy, by rw [hj, heq], hpair, by rw [htime]⟩
      · exact absurd (hnone fun x hx hl => hlooks ⟨x, hx, hl⟩) hne
  | _ => exact Iff.rfl

/-- For every flow, and every run of it. -/
theorem measures_iff_genuine (float : PairFloat D) (flowsize duration startTime endtime : Nat)
    (as : List Flow.Act) :
    (system float).Always Once (init float flowsize duration startTime endtime) as ∧
        (system float).Along (Measures float) (init float flowsize duration startTime endtime) as ↔
      (system float).Along Genuine (init float flowsize duration startTime endtime) as :=
  Lts.always_and_along_iff (J := fun c => c.Inv float)
    (fun _ h => (List.nodup_append.mp h.once).2.1)
    (fun _ _ _ h hstep hgen => ⟨inv_step h hstep, (measures_iff h hstep).mpr hgen⟩)
    (fun _ _ _ h hstep _ hmeas => (measures_iff h hstep).mp hmeas)
    as (inv_init flowsize duration startTime endtime)

/-- Of the first pair the second packet is lost.  After `_first_rto` the pair is sent again, and
    now the first is lost: the gap is the whole timeout. -/
theorem restartedPair_breaks :
    ¬ (system exactPair).Along (Measures exactPair) (init exactPair 0 0 0 0)
      [.event, .deliverData 0, .dataFault (.lose 0), .event, .dataFault (.lose 0),
        .deliverData 0] := by
  decide +kernel

end Traced

end PacketPairSrc

end Htsim
end DatacenterNetworking
