/-
  DatacenterNetworking.Htsim.Reclaim

  Who has the packets of a flow, and when the flow is deleted.  `_flow._nPackets` is
  incremented by the two that make packets, the source and its sink, and decremented
  wherever one is freed.  The source deletes itself, its sink and its routes when it
  finds the counter at zero.

  A packet is handed on by calls: it is in hand until an element keeps it, and no
  event is dispatched before.  Any element may get it next, and any may have its event
  next, so that every topology and every schedule is among the runs.  Other flows send
  and take what they like.

  `reclaims_iff_room`: the counter is the number of packets alive, each packet made is
  alive or was freed once, and nothing refers to a source that has deleted itself,
  exactly as long as a source makes no packet while 2^32 - 1 are alive.
-/

import DatacenterNetworking.Htsim.Disposal
import DatacenterNetworking.Htsim.FairElements
import Mathlib.Data.UInt

namespace DatacenterNetworking
namespace Htsim

/-- `ACK_SIZE`. -/
def ACK_SIZE : Nat := 40

/-- `DataPacket::newpkt`: what the elements see of a data packet. -/
def DataPacket.packet (flow : Nat) (p : DataPacket) : Packet :=
  { flow, size := p.size, id := u32 p.seqno }

/-- `DataAck::newpkt`. -/
def DataAck.packet (flow : Nat) (a : DataAck) : Packet :=
  { flow, size := ACK_SIZE, id := u32 a.ackno }

/-- An element of the network, as it is. -/
structure Node where
  elem : Element
  state : elem.σ

/-- The packets it has. -/
def Node.held (n : Node) : Multiset Tag := n.elem.held n.state

/-- A flow and its network.  The packets of `toSend` are yet to be made by the source, those
    `inHand` are passed on by calls.  A flow that is not `alive` has deleted itself.  `acked`,
    `created` and `freed` are histories of the acks and of the flow's packets. -/
structure FlowNet (S K : Type) where
  now : Nat
  src : S
  sink : K
  alive : Bool
  nPackets : Nat
  toSend : List Packet
  inHand : List Packet
  nodes : List Node
  acked : List DataAck
  created : List Packet
  freed : List Packet

namespace FlowNet

/-- What may happen next.  `enter k i` hands packet `k` to element `i`, `toSink k i` and
    `toSource k i` to an end of the flow, where it turns out to be data packet or ack number
    `i`; `call i` is an event of an element; `inject` and `absorb` are by other flows. -/
inductive Act where
  | event
  | advance (time : Nat)
  | newpkt
  | enter (k i : Nat)
  | call (i : Nat)
  | toSink (k i : Nat)
  | toSource (k i : Nat)
  | inject (pkt : Packet)
  | absorb (k : Nat)

section Step

variable {S K : Type} (E : Endhost S K) (flow : Nat)

/-- A flow that has been connected over elements just built. -/
def init (net : List Element) (flowsize duration startTime endtime : Nat) : FlowNet S K where
  now := 0
  src := E.newSrc flowsize duration startTime endtime
  sink := E.newSink
  alive := true
  nPackets := 0
  toSend := []
  inHand := []
  nodes := net.map fun e => ⟨e, e.new⟩
  acked := []
  created := []
  freed := []

/-- No call is under way. -/
def Quiet (s : FlowNet S K) : Prop := s.inHand = [] ∧ s.toSend = []

instance (s : FlowNet S K) : Decidable s.Quiet := inferInstanceAs (Decidable (_ ∧ _))

/-- The packets of the flow that are alive: in hand, or in an element. -/
def live (s : FlowNet S K) : Multiset Tag :=
  (tags s.inHand + (s.nodes.map Node.held).sum).filter fun t => t.flow = flow

/-- Those of them that are of the flow. -/
def ofFlow (pkts : List Packet) : List Packet := pkts.filter fun p => p.flow = flow

/-- `newpkt`: a packet of the flow is made. -/
def create (s : FlowNet S K) (pkt : Packet) : FlowNet S K :=
  { s with
    nPackets := u32 (s.nPackets + 1)
    inHand := s.inHand ++ [pkt]
    created := s.created ++ [pkt] }

/-- `_nPackets--`, on a `uint32_t`, as many times as there are packets to free. -/
def decrement : Nat → Nat → Nat
  | nPackets, 0 => nPackets
  | nPackets, count + 1 => decrement (if nPackets = 0 then 2 ^ 32 - 1 else nPackets - 1) count

/-- Packets have moved, and those of `gone` were freed. -/
def move (s : FlowNet S K) (inHand : List Packet) (nodes : List Node) (gone : List Packet) :
    FlowNet S K :=
  { s with
    inHand := inHand
    nodes := nodes
    nPackets := decrement s.nPackets (ofFlow flow gone).length
    freed := s.freed ++ ofFlow flow gone }

/-- What the source has sent on the way from `src` to `src'`, and is yet to make. -/
def newly (src src' : S) : List Packet :=
  ((E.source src').sent.drop (E.source src).sent.length).map fun e => e.pkt.packet flow

/-- The transition function. -/
def step (s : FlowNet S K) : Act → Option (FlowNet S K)
  | .event =>
      if s.alive = true ∧ s.Quiet then
        (E.source s.src).pending.min?.bind fun time =>
          if s.now ≤ time then
            match E.doNextEvent time s.nPackets (E.taken s.src time) with
            | some src => some { s with now := time, src := src, toSend := newly E flow s.src src }
            -- `delete _sink`, the routes and `this`
            | none => some { s with now := time, src := E.taken s.src time, alive := false }
          else none
      else none
  | .advance time =>
      -- no event of the source is passed over
      if s.Quiet ∧ s.now ≤ time ∧
          (s.alive = true → ∀ w ∈ (E.source s.src).pending, time ≤ w) then
        some { s with now := time }
      else none
  | .newpkt =>
      match s.inHand, s.toSend with
      | [], pkt :: rest => some ({ s with toSend := rest }.create pkt)
      | _, _ => none
  | .enter k i =>
      s.inHand[k]?.bind fun pkt =>
        s.nodes[i]?.bind fun n =>
          (n.elem.receivePacket s.now pkt n.state).map fun r =>
            s.move flow (s.inHand.eraseIdx k ++ r.sentOn) (s.nodes.set i ⟨n.elem, r.state⟩) r.freed
  | .call i =>
      if s.Quiet then
        s.nodes[i]?.bind fun n =>
          (n.elem.doNextEvent s.now n.state).map fun r =>
            s.move flow (s.inHand ++ r.sentOn) (s.nodes.set i ⟨n.elem, r.state⟩) r.freed
      else none
  | .toSink k i =>
      s.inHand[k]?.bind fun pkt =>
        (E.source s.src).sent[i]?.bind fun e =>
          if s.alive = true ∧ pkt.tag = (e.pkt.packet flow).tag then
            let r := E.sinkReceive s.now { e.pkt with ecnFwd := pkt.ecnFwd } s.sink
            let s' := s.move flow (s.inHand.eraseIdx k) s.nodes [pkt]
            some ({ s' with sink := r.1, acked := s.acked ++ [r.2] }.create (r.2.packet flow))
          else none
  | .toSource k i =>
      s.inHand[k]?.bind fun pkt =>
        s.acked[i]?.bind fun a =>
          if s.alive = true ∧ pkt.tag = (a.packet flow).tag then
            let src := E.receivePacket s.now a s.src
            let s' := s.move flow (s.inHand.eraseIdx k) s.nodes [pkt]
            some { s' with src := src, toSend := s.toSend ++ newly E flow s.src src }
          else none
  | .inject pkt =>
      if s.Quiet ∧ pkt.flow ≠ flow then some { s with inHand := [pkt] } else none
  | .absorb k =>
      s.inHand[k]?.bind fun pkt =>
        if pkt.flow ≠ flow then some (s.move flow (s.inHand.eraseIdx k) s.nodes [pkt]) else none

/-- The flow in its network. -/
def system : Lts (FlowNet S K) Act where
  step := step E flow

/-- The counter is the number of packets alive.  Each packet made is alive, or was freed once.
    When the source has deleted itself, none is in any queue, pipe or service slot, and it has
    no event in the event list. -/
structure Reclaims (s : FlowNet S K) : Prop where
  nPackets : s.nPackets = (s.live flow).card
  once : s.live flow + tags s.freed = tags s.created
  deleted : s.alive = false → s.live flow = 0 ∧ (E.source s.src).pending = []

/-- The source makes no packet while 2^32 - 1 of the flow are alive. -/
def Room (s : FlowNet S K) : Act → Prop
  | .newpkt => (s.live flow).card + 1 < 2 ^ 32
  | _ => True

end Step

variable {S K : Type} {E : Endhost S K} {flow : Nat}

/-! ## Packets that move -/

theorem tags_ofFlow (flow : Nat) (pkts : List Packet) :
    (tags pkts).filter (fun t => t.flow = flow) = tags (ofFlow flow pkts) := by
  rw [tags, tags, Multiset.filter_coe, ofFlow, List.filter_map]
  rfl

theorem card_tags (pkts : List Packet) : (tags pkts).card = pkts.length := by
  rw [tags, Multiset.coe_card, List.length_map]

theorem tags_ofFlow_self {pkt : Packet} (h : pkt.flow = flow) :
    ofFlow flow [pkt] = [pkt] := List.filter_cons_of_pos (by simpa using h)

/-- Nothing but where the packets are has changed, and some are gone. -/
def Conserves (s : FlowNet S K) (inHand : List Packet) (nodes : List Node)
    (gone : List Packet) : Prop :=
  tags inHand + (nodes.map Node.held).sum + tags gone =
    tags s.inHand + (s.nodes.map Node.held).sum

theorem live_move (flow : Nat) {s : FlowNet S K} {inHand : List Packet} {nodes : List Node}
    {gone : List Packet} (h : s.Conserves inHand nodes gone) :
    (s.move flow inHand nodes gone).live flow + tags (ofFlow flow gone) = s.live flow := by
  rw [← tags_ofFlow]
  exact (Multiset.filter_add _ _ _).symm.trans (congrArg _ h)

theorem live_create (s : FlowNet S K) {pkt : Packet} (h : pkt.flow = flow) :
    (s.create pkt).live flow = s.live flow + tags [pkt] := by
  have hself : (tags [pkt]).filter (fun t => t.flow = flow) = tags [pkt] := by
    rw [tags_ofFlow, tags_ofFlow_self h]
  rw [← hself, live, live, create, ← Multiset.filter_add, tags_append]
  congr 1
  abel

theorem decrement_eq {nPackets count : Nat} (hle : count ≤ nPackets) :
    decrement nPackets count = nPackets - count := by
  induction count generalizing nPackets with
  | zero => rfl
  | succ count ih =>
    rw [decrement, if_neg (by omega), ih (by omega)]
    omega

theorem decrement_lt {nPackets : Nat} (count : Nat) (h : nPackets < 2 ^ 32) :
    decrement nPackets count < 2 ^ 32 := by
  induction count generalizing nPackets with
  | zero => exact h
  | succ count ih =>
    rw [decrement]
    apply ih
    split_ifs
    · omega
    · omega

/-! ## What a step is -/

/-- An element has got a packet, or has had an event. -/
theorem conserves_set {s : FlowNet S K} {i : Nat} {n : Node} {r : Outcome n.elem.σ}
    {rest : List Packet} {taken : Multiset Tag} (hn : s.nodes[i]? = some n)
    (htaken : tags rest + taken = tags s.inHand)
    (hheld : n.elem.held r.state + (tags r.sentOn + tags r.freed) = n.held + taken) :
    s.Conserves (rest ++ r.sentOn) (s.nodes.set i ⟨n.elem, r.state⟩) r.freed := by
  have hsum := sum_set Node.held hn (⟨n.elem, r.state⟩ : Node)
  have hstate : (⟨n.elem, r.state⟩ : Node).held = n.elem.held r.state := rfl
  rw [hstate] at hsum
  -- both sides with what the element had
  apply add_right_cancel (b := n.held + taken)
  calc tags (rest ++ r.sentOn) + ((s.nodes.set i ⟨n.elem, r.state⟩).map Node.held).sum +
        tags r.freed + (n.held + taken)
      = (tags rest + taken) + (((s.nodes.set i ⟨n.elem, r.state⟩).map Node.held).sum + n.held) +
          (tags r.sentOn + tags r.freed) := by
        rw [tags_append]
        abel
    _ = tags s.inHand + (s.nodes.map Node.held).sum +
          (n.elem.held r.state + (tags r.sentOn + tags r.freed)) := by
        rw [htaken, hsum]
        abel
    _ = tags s.inHand + (s.nodes.map Node.held).sum + (n.held + taken) := by rw [hheld]

/-- A packet that is in hand is taken from there. -/
theorem tags_eraseIdx {pkts : List Packet} {k : Nat} {pkt : Packet} (h : pkts[k]? = some pkt) :
    tags (pkts.eraseIdx k) + tags [pkt] = tags pkts := by
  obtain ⟨hk, rfl⟩ := List.getElem?_eq_some_iff.mp h
  rw [add_comm, ← tags_append]
  exact tags_perm (List.getElem_cons_eraseIdx_perm hk)

/-- Every element is as its methods leave it. -/
def Sound (nodes : List Node) : Prop := ∀ n ∈ nodes, n.elem.Ok n.state

theorem Sound.set {nodes : List Node} (h : Sound nodes) {i : Nat} {n : Node}
    (hn : n.elem.Ok n.state) : Sound (nodes.set i n) := by
  intro m hm
  rcases List.mem_or_eq_of_mem_set hm with hm | rfl
  · exact h m hm
  · exact hn

variable (E flow) in
/-- What a step is: the source has an event, or its last one; a packet is made; packets move
    and some are freed; a packet reaches the sink, or an ack the source; time goes on, or
    another flow sends. -/
inductive Stepped (s : FlowNet S K) : Act → FlowNet S K → Prop
  | event {time : Nat} {src : S} (halive : s.alive = true) (hquiet : s.Quiet)
      (hmin : (E.source s.src).pending.min? = some time)
      (hnext : E.doNextEvent time s.nPackets (E.taken s.src time) = some src) :
      Stepped s .event { s with now := time, src := src, toSend := newly E flow s.src src }
  | deleted {time : Nat} (halive : s.alive = true) (hquiet : s.Quiet)
      (hmin : (E.source s.src).pending.min? = some time)
      (hnext : E.doNextEvent time s.nPackets (E.taken s.src time) = none) :
      Stepped s .event { s with now := time, src := E.taken s.src time, alive := false }
  | newpkt {pkt : Packet} {rest : List Packet} (hsend : s.toSend = pkt :: rest) :
      Stepped s .newpkt ({ s with toSend := rest }.create pkt)
  | move {a : Act} {inHand : List Packet} {nodes : List Node} {gone : List Packet}
      (hother : a ≠ .newpkt) (hsound : Sound nodes) (hcons : s.Conserves inHand nodes gone) :
      Stepped s a (s.move flow inHand nodes gone)
  | toSink {k i : Nat} {pkt : Packet} {sink : K} {ack : DataAck} (halive : s.alive = true)
      (hflow : pkt.flow = flow) (hcons : s.Conserves (s.inHand.eraseIdx k) s.nodes [pkt]) :
      Stepped s (.toSink k i)
        ({ s.move flow (s.inHand.eraseIdx k) s.nodes [pkt] with
            sink := sink, acked := s.acked ++ [ack] }.create (ack.packet flow))
  | toSource {k i : Nat} {pkt : Packet} {a : DataAck} (halive : s.alive = true)
      (hcons : s.Conserves (s.inHand.eraseIdx k) s.nodes [pkt]) :
      Stepped s (.toSource k i)
        { s.move flow (s.inHand.eraseIdx k) s.nodes [pkt] with
          src := E.receivePacket s.now a s.src
          toSend := s.toSend ++ newly E flow s.src (E.receivePacket s.now a s.src) }
  | advance {time : Nat} : Stepped s (.advance time) { s with now := time }
  | inject {pkt : Packet} (hquiet : s.Quiet) (hflow : pkt.flow ≠ flow) :
      Stepped s (.inject pkt) { s with inHand := [pkt] }

/-- A packet in hand is taken, and no element gets it. -/
theorem conserves_eraseIdx {s : FlowNet S K} {k : Nat} {pkt : Packet}
    (h : s.inHand[k]? = some pkt) : s.Conserves (s.inHand.eraseIdx k) s.nodes [pkt] := by
  rw [Conserves, ← tags_eraseIdx h]
  abel

theorem stepped {s t : FlowNet S K} {a : Act} (hsound : Sound s.nodes)
    (hstep : step E flow s a = some t) : Stepped E flow s a t := by
  -- one step of the source's own acts, or a move of a packet through an element
  cases a with
  | event =>
    simp only [step] at hstep
    split_ifs at hstep with hready
    obtain ⟨time, hmin, hstep⟩ := Option.bind_eq_some_iff.mp hstep
    split_ifs at hstep
    cases hnext : E.doNextEvent time s.nPackets (E.taken s.src time) with
    | none =>
      simp only [hnext] at hstep
      cases hstep
      exact .deleted hready.1 hready.2 hmin hnext
    | some src =>
      simp only [hnext] at hstep
      cases hstep
      exact .event hready.1 hready.2 hmin hnext
  | advance time =>
    simp only [step] at hstep
    split_ifs at hstep
    cases hstep
    exact .advance
  | newpkt =>
    simp only [step] at hstep
    split at hstep
    · rename_i hsend
      cases hstep
      exact .newpkt hsend
    · cases hstep
  | enter k i =>
    obtain ⟨pkt, hpkt, hstep⟩ := Option.bind_eq_some_iff.mp hstep
    obtain ⟨n, hn, hstep⟩ := Option.bind_eq_some_iff.mp hstep
    obtain ⟨r, hr, rfl⟩ := Option.map_eq_some_iff.mp hstep
    obtain ⟨hheld, hok⟩ := n.elem.receive (hsound n (List.mem_of_getElem? hn)) hr
    exact .move nofun (hsound.set hok) (conserves_set hn (tags_eraseIdx hpkt) hheld)
  | call i =>
    simp only [step] at hstep
    split_ifs at hstep
    obtain ⟨n, hn, hstep⟩ := Option.bind_eq_some_iff.mp hstep
    obtain ⟨r, hr, rfl⟩ := Option.map_eq_some_iff.mp hstep
    obtain ⟨hheld, hok⟩ := n.elem.next (hsound n (List.mem_of_getElem? hn)) hr
    exact .move nofun (hsound.set hok)
      (conserves_set hn (add_zero _) (hheld.trans (add_zero _).symm))
  | toSink k i =>
    obtain ⟨pkt, hpkt, hstep⟩ := Option.bind_eq_some_iff.mp hstep
    obtain ⟨e, -, hstep⟩ := Option.bind_eq_some_iff.mp hstep
    split_ifs at hstep with hfits
    cases hstep
    exact .toSink hfits.1 (congrArg Tag.flow hfits.2) (conserves_eraseIdx hpkt)
  | toSource k i =>
    obtain ⟨pkt, hpkt, hstep⟩ := Option.bind_eq_some_iff.mp hstep
    obtain ⟨a, -, hstep⟩ := Option.bind_eq_some_iff.mp hstep
    split_ifs at hstep with hfits
    cases hstep
    exact .toSource hfits.1 (conserves_eraseIdx hpkt)
  | inject pkt =>
    simp only [step] at hstep
    split_ifs at hstep with hready
    cases hstep
    exact .inject hready.1 hready.2
  | absorb k =>
    obtain ⟨pkt, hpkt, hstep⟩ := Option.bind_eq_some_iff.mp hstep
    split_ifs at hstep
    cases hstep
    exact .move nofun hsound (conserves_eraseIdx hpkt)

/-! ## What holds in every run -/

/-- What holds of a flow in every run, whatever its counter says. -/
structure Inv (D : Disposal E) (flow : Nat) (s : FlowNet S K) : Prop where
  sound : Sound s.nodes
  tidy : s.alive = true → D.Tidy s.src
  own : ∀ p ∈ s.toSend, p.flow = flow
  gone : s.alive = false → s.toSend = []
  lt : s.nPackets < 2 ^ 32
  once : s.live flow + tags s.freed = tags s.created

theorem sum_held_new (net : List Element) :
    ((net.map fun e => (⟨e, e.new⟩ : Node)).map Node.held).sum = 0 := by
  induction net with
  | nil => rfl
  | cons e net ih =>
    rw [List.map_cons, List.map_cons, List.sum_cons, ih, add_zero]
    exact e.held_new

theorem live_init (net : List Element) (flowsize duration startTime endtime : Nat) :
    (init E net flowsize duration startTime endtime).live flow = 0 := by
  rw [live, init, sum_held_new]
  rfl

theorem inv_init (D : Disposal E) (net : List Element)
    (flowsize duration startTime endtime : Nat) :
    Inv D flow (init E net flowsize duration startTime endtime) where
  sound := by
    intro n hn
    obtain ⟨e, -, rfl⟩ := List.mem_map.mp hn
    exact e.ok_new
  tidy := fun _ => D.tidy_new flowsize duration startTime endtime
  own := fun _ hp => absurd hp List.not_mem_nil
  gone := nofun
  lt := Nat.two_pow_pos 32
  once := by
    rw [live_init]
    rfl

/-- What the source sends is of its flow. -/
theorem flow_of_newly {src src' : S} {p : Packet} (h : p ∈ newly E flow src src') :
    p.flow = flow := by
  obtain ⟨e, -, rfl⟩ := List.mem_map.mp h
  rfl

/-- The packets that are gone were freed. -/
theorem once_move {s : FlowNet S K} {inHand : List Packet} {nodes : List Node}
    {gone : List Packet} (h : s.Conserves inHand nodes gone)
    (honce : s.live flow + tags s.freed = tags s.created) :
    (s.move flow inHand nodes gone).live flow + tags (s.freed ++ ofFlow flow gone) =
      tags s.created := by
  rw [← honce, ← live_move flow h, tags_append]
  abel

theorem once_create {s : FlowNet S K} {pkt : Packet} (hflow : pkt.flow = flow)
    (honce : s.live flow + tags s.freed = tags s.created) :
    (s.create pkt).live flow + tags s.freed = tags (s.created ++ [pkt]) := by
  rw [live_create s hflow, tags_append, ← honce]
  abel

section Inv

variable {D : Disposal E} {s : FlowNet S K}

theorem nPackets_create_lt (s : FlowNet S K) (pkt : Packet) :
    (s.create pkt).nPackets < 2 ^ 32 := by
  simp only [create]
  exact u32_lt _

theorem inv_move {inHand : List Packet} {nodes : List Node} {gone : List Packet}
    (h : Inv D flow s) (hsound : Sound nodes) (hcons : s.Conserves inHand nodes gone) :
    Inv D flow (s.move flow inHand nodes gone) where
  sound := hsound
  tidy := h.tidy
  own := h.own
  gone := h.gone
  lt := decrement_lt _ h.lt
  once := once_move hcons h.once

theorem inv_create {pkt : Packet} (h : Inv D flow s) (hflow : pkt.flow = flow) :
    Inv D flow (s.create pkt) where
  sound := h.sound
  tidy := h.tidy
  own := h.own
  gone := h.gone
  lt := nPackets_create_lt s pkt
  once := once_create hflow h.once

/-- Packets of other flows do not count. -/
theorem live_inject {pkt : Packet} (hquiet : s.Quiet) (hflow : pkt.flow ≠ flow) :
    live flow { s with inHand := [pkt] } = s.live flow := by
  have hnone : (tags [pkt]).filter (fun t => t.flow = flow) = 0 := by
    rw [tags_ofFlow, ofFlow, List.filter_cons_of_neg (by simpa using hflow)]
    rfl
  have hhand : tags s.inHand = 0 := by
    rw [hquiet.1]
    rfl
  rw [live, live, Multiset.filter_add, Multiset.filter_add, hnone, hhand, Multiset.filter_zero]

theorem inv_step (s : FlowNet S K) (a : Act) (t : FlowNet S K)
    (h : Inv D flow s) (hstep : (system E flow).step s a = some t) : Inv D flow t := by
  -- packets are made in three of the steps; in the others they only move
  cases stepped h.sound hstep with
  | event halive _ hmin hnext =>
    exact
      { sound := h.sound
        tidy := fun _ => D.tidy_event (h.tidy halive) hmin hnext
        own := fun _ hp => flow_of_newly hp
        gone := fun hgone => absurd (halive.symm.trans hgone) nofun
        lt := h.lt
        once := h.once }
  | deleted _ hquiet =>
    exact
      { sound := h.sound
        tidy := nofun
        own := h.own
        gone := fun _ => hquiet.2
        lt := h.lt
        once := h.once }
  | @newpkt pkt rest hsend =>
    have hown := h.own
    rw [hsend] at hown
    obtain ⟨hpkt, hrest⟩ := List.forall_mem_cons.mp hown
    refine inv_create ⟨h.sound, h.tidy, hrest, fun hgone => ?_, h.lt, h.once⟩ hpkt
    have hnil := h.gone hgone
    rw [hsend] at hnil
    cases hnil
  | move _ hsound hcons => exact inv_move h hsound hcons
  | toSink _ _ hcons =>
    have hmove := inv_move h h.sound hcons
    exact inv_create
      ⟨hmove.sound, hmove.tidy, hmove.own, hmove.gone, hmove.lt, hmove.once⟩ rfl
  | toSource halive hcons =>
    have hmove := inv_move h h.sound hcons
    exact
      { sound := hmove.sound
        tidy := fun hs => D.tidy_receive (h.tidy hs)
        own := fun p hp => by
          rcases List.mem_append.mp hp with hp | hp
          · exact h.own p hp
          · exact flow_of_newly hp
        gone := fun hgone => absurd (halive.symm.trans hgone) nofun
        lt := hmove.lt
        once := hmove.once }
  | advance => exact ⟨h.sound, h.tidy, h.own, h.gone, h.lt, h.once⟩
  | inject hquiet hflow =>
    refine ⟨h.sound, h.tidy, h.own, h.gone, h.lt, ?_⟩
    rw [live_inject hquiet hflow]
    exact h.once

/-! ## The counter -/

theorem card_live_move (flow : Nat) {inHand : List Packet} {nodes : List Node}
    {gone : List Packet}
    (hcons : s.Conserves inHand nodes gone) :
    ((s.move flow inHand nodes gone).live flow).card + (ofFlow flow gone).length =
      (s.live flow).card := by
  rw [← live_move flow hcons, Multiset.card_add, card_tags]

/-- The counter follows the packets that are freed. -/
theorem reclaims_move {inHand : List Packet} {nodes : List Node} {gone : List Packet}
    (h : Reclaims E flow s) (hcons : s.Conserves inHand nodes gone) :
    Reclaims E flow (s.move flow inHand nodes gone) where
  nPackets := by
    have hcard := card_live_move flow hcons
    have hcount : s.nPackets = (s.live flow).card := h.nPackets
    have hmove : (s.move flow inHand nodes gone).nPackets =
        decrement s.nPackets (ofFlow flow gone).length := by
      simp only [move]
    rw [hmove, decrement_eq (by omega)]
    omega
  once := once_move hcons h.once
  deleted := fun hgone => by
    obtain ⟨hnone, hpending⟩ := h.deleted hgone
    refine ⟨?_, hpending⟩
    have hmove := live_move flow hcons
    rw [hnone] at hmove
    exact (add_eq_zero.mp hmove).1

/-- The counter follows a packet that is made as long as it does not wrap. -/
theorem reclaims_create_iff {pkt : Packet} (hflow : pkt.flow = flow) (halive : s.alive = true)
    (h : Reclaims E flow s) :
    Reclaims E flow (s.create pkt) ↔ (s.live flow).card + 1 < 2 ^ 32 := by
  have hcard : ((s.create pkt).live flow).card = (s.live flow).card + 1 := by
    rw [live_create s hflow, Multiset.card_add, card_tags]
    rfl
  have hcount : (s.create pkt).nPackets = u32 ((s.live flow).card + 1) := by
    simp only [create]
    rw [h.nPackets]
  constructor
  · intro ht
    have hlt := nPackets_create_lt s pkt
    rw [ht.nPackets, hcard] at hlt
    exact hlt
  · intro hroom
    exact
      { nPackets := by rw [hcount, hcard, u32, Nat.mod_eq_of_lt hroom]
        once := once_create hflow h.once
        deleted := fun hgone => absurd (halive.symm.trans hgone) nofun }

/-- Step by step, the packets are accounted for exactly as long as there is room. -/
theorem reclaims_step (s : FlowNet S K) (a : Act) (t : FlowNet S K) (hinv : Inv D flow s)
    (h : Reclaims E flow s) (hstep : (system E flow).step s a = some t) :
    Reclaims E flow t ↔ Room flow s a := by
  cases stepped hinv.sound hstep with
  | event halive =>
    refine iff_of_true ⟨h.nPackets, h.once, fun hgone => ?_⟩ trivial
    exact absurd (halive.symm.trans hgone) nofun
  | deleted halive _ hmin hnext =>
    -- the counter is zero, and it is right
    obtain ⟨hzero, hpending⟩ := D.deletes (hinv.tidy halive) hmin hnext
    refine iff_of_true ⟨h.nPackets, h.once, fun _ => ⟨?_, ?_⟩⟩ trivial
    · exact Multiset.card_eq_zero.mp (h.nPackets.symm.trans hzero)
    · rw [Endhost.taken, E.source_setSource]
      exact hpending
  | @newpkt pkt rest hsend =>
    have hpkt : pkt.flow = flow := hinv.own pkt (by rw [hsend]; exact List.mem_cons_self)
    have halive : s.alive = true := by
      by_contra hgone
      have hnil := hinv.gone (Bool.eq_false_iff.mpr hgone)
      rw [hsend] at hnil
      cases hnil
    have hsame : Reclaims E flow { s with toSend := rest } := ⟨h.nPackets, h.once, h.deleted⟩
    exact reclaims_create_iff hpkt halive hsame
  | @move _ _ _ _ hother _ hcons =>
    refine iff_of_true (reclaims_move h hcons) ?_
    cases a with
    | newpkt => exact absurd rfl hother
    | _ => trivial
  | @toSink k i pkt sink ack halive hflow hcons =>
    have hmove := reclaims_move h hcons
    have hsame : Reclaims E flow { s.move flow (s.inHand.eraseIdx k) s.nodes [pkt] with
        sink := sink, acked := s.acked ++ [ack] } :=
      ⟨hmove.nPackets, hmove.once, hmove.deleted⟩
    refine iff_of_true ?_ trivial
    have hack : (ack.packet flow).flow = flow := rfl
    refine (reclaims_create_iff hack ?_ hsame).mpr ?_
    · exact halive
    -- the ack takes the place of the data packet
    have hcard := card_live_move flow hcons
    rw [tags_ofFlow_self hflow, List.length_singleton, ← h.nPackets] at hcard
    exact hcard.trans_lt hinv.lt
  | toSource halive hcons =>
    have hmove := reclaims_move h hcons
    refine iff_of_true ⟨hmove.nPackets, hmove.once, fun hgone => ?_⟩ trivial
    exact absurd (halive.symm.trans hgone) nofun
  | advance => exact iff_of_true ⟨h.nPackets, h.once, h.deleted⟩ trivial
  | inject hquiet hflow =>
    have hlive := live_inject hquiet hflow
    refine iff_of_true ⟨?_, ?_, fun hgone => ?_⟩ trivial
    · rw [hlive]
      exact h.nPackets
    · rw [hlive]
      exact h.once
    · rw [hlive]
      exact h.deleted hgone

end Inv

/-- For any source that keeps its events tidy, and for every network. -/
theorem always_reclaims_iff (D : Disposal E) (flow : Nat) (net : List Element)
    (flowsize duration startTime endtime : Nat) (as : List Act) :
    (system E flow).Always (Reclaims E flow)
        (init E net flowsize duration startTime endtime) as ↔
      (system E flow).Along (Room flow) (init E net flowsize duration startTime endtime) as := by
  refine Lts.always_iff_along (J := Inv D flow) inv_step reclaims_step as
    (inv_init D net flowsize duration startTime endtime) ⟨?_, ?_, nofun⟩
  · rw [live_init]
    rfl
  · rw [live_init]
    rfl

/-- For each of the three sources, every network of the elements, every size, duration and
    start of the flow, and every run. -/
theorem reclaims_iff_room (flow : Nat) (net : List Element)
    (flowsize duration startTime endtime : Nat) (as : List Act) :
    (∀ {D : Type} (cfg : TcpConfig D),
      (system (tcpEndhost cfg) flow).Always (Reclaims (tcpEndhost cfg) flow)
          (init (tcpEndhost cfg) net flowsize duration startTime endtime) as ↔
        (system (tcpEndhost cfg) flow).Along (Room flow)
          (init (tcpEndhost cfg) net flowsize duration startTime endtime) as) ∧
    (∀ {D : Type} (float : PairFloat D),
      (system (packetPairEndhost float) flow).Always (Reclaims (packetPairEndhost float) flow)
          (init (packetPairEndhost float) net flowsize duration startTime endtime) as ↔
        (system (packetPairEndhost float) flow).Along (Room flow)
          (init (packetPairEndhost float) net flowsize duration startTime endtime) as) ∧
    (∀ {D : Type} (float : TimelyFloat D),
      (system (timelyEndhost float) flow).Always (Reclaims (timelyEndhost float) flow)
          (init (timelyEndhost float) net flowsize duration startTime endtime) as ↔
        (system (timelyEndhost float) flow).Along (Room flow)
          (init (timelyEndhost float) net flowsize duration startTime endtime) as) :=
  ⟨fun cfg => always_reclaims_iff (TcpSrc.disposal cfg) flow net flowsize duration startTime
      endtime as,
    fun float => always_reclaims_iff (PacketPairSrc.disposal float) flow net flowsize duration
      startTime endtime as,
    fun float => always_reclaims_iff (TimelySrc.disposal float) flow net flowsize duration
      startTime endtime as⟩

/-! ## A counter that wraps

A `PacketPairSrc` that gets no ack starts again every `_rto`.  Its packets are in a pipe whose
delay is longer than 2^31 starts take. -/

/-- A pipe with a delay of 2^63 picoseconds. -/
def longPipe : Element := Pipe.element (2 ^ 63)

/-- The source starts, and the pipe gets the pair. -/
def restart : List Act := [.event, .newpkt, .enter 0 0, .newpkt, .enter 0 0]

/-- The source starts `n` times. -/
def restarts (n : Nat) : List Act := (List.replicate n restart).flatten

/-- After `n` starts of a flow of two segments. -/
structure Restarted (n : Nat) (s : FlowNet (PacketPairSrc Rat) PacketPairSink) : Prop where
  alive : s.alive = true
  quiet : s.Quiet
  flowsize : s.src.flowsize = 3000
  endtime : s.src.endtime = 0
  event : ∃ w, s.src.pending = [w] ∧ s.now ≤ w ∧
    (s.src.state = .idle ∨ (s.src.state = .startup ∧ w = s.src.firstRto))
  nodes : ∃ p : Pipe, s.nodes = [⟨longPipe, p⟩]
  created : s.created.length = 2 * n
  freed : s.freed = []

/-- The pipe gets the packet. -/
theorem step_enter (E : Endhost S K) (flow : Nat) {s : FlowNet S K} (pkt : Packet) {p : Pipe}
    (hhand : s.inHand = [pkt]) (hnodes : s.nodes = [⟨longPipe, p⟩]) :
    ∃ p' : Pipe, (system E flow).step s (.enter 0 0) =
      some (s.move flow [] [⟨longPipe, p'⟩] []) := by
  refine ⟨{ p with
    inflight := p.inflight ++ [(EventList.relTime s.now (2 ^ 63 : UInt64).toNat, pkt)]
    arrived := p.arrived ++ [(s.now, pkt)] }, ?_⟩
  simp only [system, step, hhand, hnodes, List.getElem?_cons_zero, Option.bind_some]
  rfl

/-- The packet made next is on its way. -/
theorem run_newpkt (E : Endhost S K) (flow : Nat) {s : FlowNet S K} {pkt : Packet}
    {rest : List Packet} {p : Pipe} (hhand : s.inHand = []) (hsend : s.toSend = pkt :: rest)
    (hnodes : s.nodes = [⟨longPipe, p⟩]) :
    ∃ t, (system E flow).run s [.newpkt, .enter 0 0] = some t ∧ t.inHand = [] ∧
      t.toSend = rest ∧ (∃ p' : Pipe, t.nodes = [⟨longPipe, p'⟩]) ∧
      t.created = s.created ++ [pkt] ∧ t.freed = s.freed ∧ t.alive = s.alive ∧ t.src = s.src ∧
      t.now = s.now := by
  have hcreate : (system E flow).step s .newpkt =
      some ({ s with toSend := rest }.create pkt) := by
    simp only [system, step, hhand, hsend]
  obtain ⟨p', henter⟩ := step_enter E flow (s := { s with toSend := rest }.create pkt)
    pkt (by simp [create, hhand]) hnodes
  refine ⟨({ s with toSend := rest }.create pkt).move flow [] [⟨longPipe, p'⟩] [], ?_, rfl, rfl,
    ⟨p', rfl⟩, rfl, List.append_nil s.freed, rfl, rfl, rfl⟩
  rw [Lts.run_cons, hcreate, Option.bind_some, Lts.run_cons, henter]
  rfl

/-- A start sends a pair, and schedules the next start. -/
theorem start_spec {D : Type} (now : Nat) {s : PacketPairSrc D} (hflow : s.flowsize = 3000)
    (hend : s.endtime = 0) (hnone : s.pending = []) :
    (PacketPairSrc.start now s).flowsize = 3000 ∧ (PacketPairSrc.start now s).endtime = 0 ∧
      (PacketPairSrc.start now s).pending = [now + s.rto] ∧
      ∃ e₁ e₂, (PacketPairSrc.start now s).sent = s.sent ++ [e₁, e₂] := by
  have hmoves := @PacketPairSrc.start_moves D now s
  refine ⟨hmoves.grown.flowsize.trans hflow, hmoves.endtime.trans hend, ?_, ?_⟩
  · show (DataSource.sourceIsPending _ _).pending = _
    rw [DataSource.pending_sourceIsPending, PacketPairSrc.transmitPacketPair_pending]
    · exact congrArg (· ++ [now + s.rto]) hnone
    · exact (PacketPairSrc.transmitPacketPair_moves
        DataSource.Move.restart.moves).endtime.trans hend
  · -- neither all is sent nor is anything in flight, before either packet of the pair
    have hsent : ∃ e₁ e₂, (PacketPairSrc.transmitPacketPair now
        { s.toPacedSource with
          highestSent := 0, lastAcked := 0, bdpEstimate := 2 * MSS_BYTES }).sent =
        s.sent ++ [e₁, e₂] := by
      simp only [PacketPairSrc.transmitPacketPair, PacketPairSrc.Blocked, DataSource.AllSent,
        PacedSource.armRto_source, PacedSource.sendNext, hflow, sub64_self, MSS_BYTES]
      simp [DataSource.sendOn]
    obtain ⟨e₁, e₂, hsent⟩ := hsent
    exact ⟨e₁, e₂, (DataSource.sourceIsPending_spec _ _).2.2.2.2.1.trans hsent⟩

theorem run_restart {n : Nat} {s : FlowNet (PacketPairSrc Rat) PacketPairSink} (flow : Nat)
    (h : Restarted n s) :
    ∃ t, (system (packetPairEndhost exactPair) flow).run s restart = some t ∧
      Restarted (n + 1) t := by
  obtain ⟨w, hpending, hnow, hstate⟩ := h.event
  obtain ⟨p, hnodes⟩ := h.nodes
  have htaken : ((packetPairEndhost exactPair).taken s.src w).pending = [] := by
    show s.src.pending.erase w = []
    rw [hpending]
    exact List.erase_cons_head ..
  obtain ⟨hflow, hend, hnext, e₁, e₂, hsent⟩ := start_spec w
    (s := (packetPairEndhost exactPair).taken s.src w) h.flowsize h.endtime htaken
  -- the event
  have hevent : (system (packetPairEndhost exactPair) flow).step s .event = some { s with
      now := w
      src := PacketPairSrc.start w ((packetPairEndhost exactPair).taken s.src w)
      toSend := [e₁.pkt.packet flow, e₂.pkt.packet flow] } := by
    have hmin : ((packetPairEndhost exactPair).source s.src).pending.min? = some w := by
      show s.src.pending.min? = some w
      rw [hpending]
      rfl
    have hdo : (packetPairEndhost exactPair).doNextEvent w s.nPackets
        ((packetPairEndhost exactPair).taken s.src w) =
          some (PacketPairSrc.start w ((packetPairEndhost exactPair).taken s.src w)) :=
      if_pos hstate
    have hnewly : newly (packetPairEndhost exactPair) flow s.src
        (PacketPairSrc.start w ((packetPairEndhost exactPair).taken s.src w)) =
          [e₁.pkt.packet flow, e₂.pkt.packet flow] := by
      show ((PacketPairSrc.start w ((packetPairEndhost exactPair).taken s.src w)).sent.drop
        s.src.sent.length).map _ = _
      rw [hsent]
      show ((s.src.sent ++ [e₁, e₂]).drop s.src.sent.length).map _ = _
      rw [List.drop_left]
      rfl
    show step _ flow s .event = _
    rw [step, if_pos ⟨h.alive, h.quiet⟩, hmin, Option.bind_some, if_pos hnow]
    simp only [hdo, hnewly]
  -- and the two packets
  obtain ⟨t₁, hrun₁, hhand₁, hsend₁, ⟨p₁, hnodes₁⟩, hcreated₁, hfreed₁, halive₁, hsrc₁, hnow₁⟩ :=
    run_newpkt (packetPairEndhost exactPair) flow (s := { s with
      now := w
      src := PacketPairSrc.start w ((packetPairEndhost exactPair).taken s.src w)
      toSend := [e₁.pkt.packet flow, e₂.pkt.packet flow] }) h.quiet.1 rfl hnodes
  obtain ⟨t₂, hrun₂, hhand₂, hsend₂, hnodes₂, hcreated₂, hfreed₂, halive₂, hsrc₂, hnow₂⟩ :=
    run_newpkt (packetPairEndhost exactPair) flow hhand₁ hsend₁ hnodes₁
  refine ⟨t₂, ?_, ?_⟩
  · have hsplit : restart = .event :: ([.newpkt, .enter 0 0] ++ [.newpkt, .enter 0 0]) := rfl
    rw [hsplit, Lts.run_cons, hevent, Option.bind_some, Lts.run_append, hrun₁]
    exact hrun₂
  · have hsrc := hsrc₂.trans hsrc₁
    exact
      { alive := halive₂.trans (halive₁.trans h.alive)
        quiet := ⟨hhand₂, hsend₂⟩
        flowsize := by rw [hsrc]; exact hflow
        endtime := by rw [hsrc]; exact hend
        event := by
          refine ⟨_, by rw [hsrc]; exact hnext, ?_, Or.inr ?_⟩
          · rw [hnow₂, hnow₁]
            exact Nat.le_add_right _ _
          · rw [hsrc]
            exact ⟨rfl, rfl⟩
        nodes := hnodes₂
        created := by
          rw [hcreated₂, hcreated₁, List.length_append, List.length_append, h.created]
          rfl
        freed := hfreed₂.trans (hfreed₁.trans h.freed) }

theorem run_restarts (flow n : Nat) {m : Nat} {s : FlowNet (PacketPairSrc Rat) PacketPairSink}
    (h : Restarted m s) :
    ∃ t, (system (packetPairEndhost exactPair) flow).run s (restarts n) = some t ∧
      Restarted (m + n) t := by
  induction n generalizing m s with
  | zero => exact ⟨s, rfl, h⟩
  | succ n ih =>
    obtain ⟨t₁, hrun₁, h₁⟩ := run_restart flow h
    obtain ⟨t, hrun, ht⟩ := ih h₁
    refine ⟨t, ?_, ?_⟩
    · rw [restarts, List.replicate_succ, List.flatten_cons, Lts.run_append, hrun₁]
      exact hrun
    · rw [show m + (n + 1) = m + 1 + n by omega]
      exact ht

/-- A flow of two segments over the pipe, before its first event. -/
def unanswered : FlowNet (PacketPairSrc Rat) PacketPairSink :=
  init (packetPairEndhost exactPair) [longPipe] 3000 0 0 0

theorem restarted_unanswered : Restarted 0 unanswered where
  alive := rfl
  quiet := ⟨rfl, rfl⟩
  flowsize := rfl
  endtime := rfl
  event := ⟨0, rfl, le_rfl, Or.inl rfl⟩
  nodes := ⟨Pipe.new, rfl⟩
  created := rfl
  freed := rfl

/-- After 2^31 starts 2^32 packets are in the pipe, and the counter is not their number. -/
theorem restarts_break :
    ¬ (system (packetPairEndhost exactPair) 1).Always (Reclaims (packetPairEndhost exactPair) 1)
      unanswered (restarts (2 ^ 31)) := by
  intro hall
  obtain ⟨t, hrun, ht⟩ := run_restarts 1 (2 ^ 31) restarted_unanswered
  have hreclaims : Reclaims (packetPairEndhost exactPair) 1 t := hall.last hrun
  have hinv : Inv (PacketPairSrc.disposal exactPair) 1 t :=
    Lts.run_induction inv_step (inv_init _ [longPipe] 3000 0 0 0) hrun
  -- all that were made are alive
  have hlive : (t.live 1).card = 2 * (0 + 2 ^ 31) := by
    have honce := congrArg Multiset.card hinv.once
    rw [ht.freed, Multiset.card_add, card_tags, card_tags, ht.created] at honce
    exact honce
  have hlt := hinv.lt
  rw [hreclaims.nPackets, hlive] at hlt
  omega

end FlowNet
end Htsim
end DatacenterNetworking
