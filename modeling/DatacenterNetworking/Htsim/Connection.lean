/-
  DatacenterNetworking.Htsim.Connection

  A flow that is connected over routes of queues and pipes (`DataSource::connect`).

  Its source and its sink are hosts of the network, and what they do there is what an
  `Endhost` computes: the source has the events it has asked for, its packets go over the
  forward route and the acks over the reverse one, and a packet that comes to the end of
  its route is received.  All other hosts, those of other flows among them, do what they
  like, over routes that may share the queues and pipes.
-/

import DatacenterNetworking.Htsim.Flow
import DatacenterNetworking.Htsim.NetworkFlight
import DatacenterNetworking.Htsim.NetworkHost
import DatacenterNetworking.Htsim.Reclaim

namespace DatacenterNetworking
namespace Htsim

/-- The events a source asks for come behind those it has asked for, and none is withdrawn. -/
structure Endhost.Registers {S K : Type} (E : Endhost S K) : Prop where
  event : ∀ {now nPackets : Nat} {s t : S}, E.doNextEvent now nPackets s = some t →
    (E.source s).pending <+: (E.source t).pending
  receive : ∀ (now : Nat) (a : DataAck) (s : S),
    (E.source s).pending <+: (E.source (E.receivePacket now a s)).pending

/-- The source and the sink, as hosts, and the routes between them. -/
structure Connection (T : Topology) where
  flow : Nat
  src : Nat
  snk : Nat
  routeFwd : Route T
  routeRev : Route T
  fwd_last : routeFwd.hops.getLast? = some snk
  rev_last : routeRev.hops.getLast? = some src

namespace Connection

variable {T : Topology} {S K : Type} (C : Connection T) (E : Endhost S K)

/-- The flow and the network.  `data` and `acks` are all packets the flow has made, with their
    numbers. -/
structure State (S K : Type) (T : Topology) where
  net : Network T
  src : S
  sink : K
  alive : Bool
  data : List (DataPacket × Nat)
  acks : List (DataAck × Nat)

namespace State

/-- Those of the packets that are in a queue or a pipe. -/
def flying {α : Type} (net : Network T) (made : List (α × Nat)) : List α :=
  (made.filter fun e => net.inFlight e.2).map Prod.fst

/-- `_flow._nPackets`. -/
def nPackets (s : State S K T) : Nat :=
  (flying s.net s.data).length + (flying s.net s.acks).length

/-- The packet with this number. -/
def lookup {α : Type} (made : List (α × Nat)) (n : Nat) : Option α :=
  (made.find? fun e => e.2 = n).map Prod.fst

/-- An event of the source is taken out of the event list. -/
def popEvent (s : State S K T) (time : Nat) : State S K T :=
  { s with
    src := E.setSource s.src
      { E.source s.src with pending := (E.source s.src).pending.erase time } }

end State

/-- A flow that has been connected, in a network where nothing has happened. -/
def init (flowsize duration : Nat) (startTime : UInt64) : State S K T where
  net := { Network.start T with
    list := { (EventList.get : EventList Nat) with
      pendingsources := [⟨startTime.toNat, C.src⟩] } }
  src := E.newSrc flowsize duration startTime.toNat 0
  sink := E.newSink
  alive := true
  data := []
  acks := []

/-- The source has become `src`: its new packets get the next numbers and are sent, and it is in
    the event list at new times.  A time beyond 64 bits wraps around to one in the past, for which
    the assertion of `sourceIsPending` fails. -/
def handOn (s : State S K T) (src : S) : Option (State S K T × List (Network.HostAct T)) :=
  let pkts := ((E.source src).sent.drop (E.source s.src).sent.length).map Sent.pkt
  let times := (E.source src).pending.drop (E.source s.src).pending.length
  if ∀ time ∈ times, time < 2 ^ 64 then
    some ({ s with src := src, data := s.data ++ pkts.zipIdx s.net.sent.length },
      pkts.map (fun p => .send C.routeFwd C.flow p.size) ++
        times.map fun time => .timer C.src (UInt64.ofNat time))
  else none

/-- What the flow does in an event of element `i`: it is the source's own, or one that brings a
    packet to an end of the flow. -/
def react (s : State S K T) (i now : Nat) :
    Option (State S K T × List (Network.HostAct T)) :=
  if i = C.src then
    let s' := s.popEvent E now
    match E.doNextEvent now s.nPackets s'.src with
    | some src => C.handOn E s' src
    | none => some ({ s' with alive := false }, [])
  else
    match s.net.arrival i with
    | none => some (s, [])
    | some (h, pkt) =>
        if h = C.snk then
          (State.lookup s.data pkt.id).map fun p =>
            let k := E.sinkReceive now { p with ecnFwd := p.ecnFwd || pkt.ecnFwd } s.sink
            ({ s with sink := k.1, acks := s.acks ++ [(k.2, s.net.sent.length)] },
              [.send C.routeRev C.flow ACK_SIZE])
        else if h = C.src then
          (State.lookup s.acks pkt.id).bind fun a => C.handOn E s (E.receivePacket now a s.src)
        else some (s, [])

/-- Another host acts: not over a route of the flow, nor for its ends. -/
def Foreign : Network.HostAct T → Prop
  | .send route _ _ => route.hops.getLast? ≠ some C.src ∧ route.hops.getLast? ≠ some C.snk
  | .timer host _ => host ≠ C.src ∧ host ≠ C.snk

instance : DecidablePred C.Foreign := fun a =>
  match a with
  | .send _ _ _ => inferInstanceAs (Decidable (_ ∧ _))
  | .timer _ _ => inferInstanceAs (Decidable (_ ∧ _))

/-- The acts of a label are those of other hosts. -/
def step (s : State S K T) : Network.Act T → Option (State S K T)
  | .hosts others =>
      if s.alive = true ∧ ∀ a ∈ others, C.Foreign a then
        (s.net.step (.hosts others)).map fun net => { s with net := net }
      else none
  | .dispatch others =>
      if s.alive = true ∧ ∀ a ∈ others, C.Foreign a then
        match s.net.list.next with
        | .event i l =>
            (C.react E s i l.now).bind fun r =>
              (s.net.step (.dispatch (r.2 ++ others))).map fun net => { r.1 with net := net }
        | _ => none
      else none

/-- A flow over queues and pipes. -/
def system : Lts (State S K T) (Network.Act T) where
  step := step C E

/-! ## What holds between two steps -/

variable {C E}

/-- The network is in a state it can reach, the packets of the flow are on its routes, in the order
    of their numbers, and the source has the events it asked for. -/
structure Ok (C : Connection T) (E : Endhost S K) (s : State S K T) : Prop where
  net : (Network.system T).Reachable (Network.start T) s.net
  list : (s.net.list.view C.src).Ordered
  pending : (s.net.list.view C.src).ownEvents.Perm (E.source s.src).pending
  data : ∀ e ∈ s.data, s.net.hopsOf e.2 = some C.routeFwd.hops
  acks : ∀ e ∈ s.acks, s.net.hopsOf e.2 = some C.routeRev.hops
  dataOrder : (s.data.map Prod.snd).Pairwise (· < ·)
  acksOrder : (s.acks.map Prod.snd).Pairwise (· < ·)

theorem host_src (C : Connection T) : (T.kind C.src).isHost := by
  obtain ⟨i, hi, hhost⟩ := C.routeRev.last
  rw [C.rev_last] at hi
  cases hi
  exact hhost

/-- What the flow does in an event. -/
inductive Reacts (C : Connection T) (E : Endhost S K) (s : State S K T) (i now : Nat) :
    State S K T × List (Network.HostAct T) → Prop
  | idle (hi : i ≠ C.src)
      (hother : ∀ h pkt, s.net.arrival i = some (h, pkt) → h ≠ C.snk ∧ h ≠ C.src) :
      Reacts C E s i now (s, [])
  | event (hi : i = C.src) {src : S} {r : State S K T × List (Network.HostAct T)}
      (hnext : E.doNextEvent now s.nPackets (s.popEvent E now).src = some src)
      (hr : C.handOn E (s.popEvent E now) src = some r) : Reacts C E s i now r
  | deleted (hi : i = C.src)
      (hnext : E.doNextEvent now s.nPackets (s.popEvent E now).src = none) :
      Reacts C E s i now ({ s.popEvent E now with alive := false }, [])
  | data (hi : i ≠ C.src) {h : Nat} {pkt : Packet} {p : DataPacket}
      (ha : s.net.arrival i = some (h, pkt)) (hp : State.lookup s.data pkt.id = some p) :
      Reacts C E s i now
        ({ s with
          sink := (E.sinkReceive now { p with ecnFwd := p.ecnFwd || pkt.ecnFwd } s.sink).1
          acks := s.acks ++
            [((E.sinkReceive now { p with ecnFwd := p.ecnFwd || pkt.ecnFwd } s.sink).2,
              s.net.sent.length)] },
          [.send C.routeRev C.flow ACK_SIZE])
  | ack (hi : i ≠ C.src) {h : Nat} {pkt : Packet} {a : DataAck}
      {r : State S K T × List (Network.HostAct T)} (ha : s.net.arrival i = some (h, pkt))
      (hp : State.lookup s.acks pkt.id = some a)
      (hr : C.handOn E s (E.receivePacket now a s.src) = some r) : Reacts C E s i now r

theorem react_reacts {s : State S K T} {i now : Nat} {r : State S K T × List (Network.HostAct T)}
    (h : C.react E s i now = some r) : Reacts C E s i now r := by
  simp only [react] at h
  split_ifs at h with hi
  · split at h
    · rename_i src hnext
      exact .event hi hnext h
    · rename_i hnext
      cases h
      exact .deleted hi hnext
  · split at h
    · rename_i ha
      cases h
      exact .idle hi fun h pkt hsome => by
        rw [ha] at hsome
        cases hsome
    · rename_i j pkt ha
      split_ifs at h with hsnk hsrc
      · obtain ⟨p, hp, rfl⟩ := Option.map_eq_some_iff.mp h
        exact .data hi ha hp
      · obtain ⟨a, hp, hr⟩ := Option.bind_eq_some_iff.mp h
        exact .ack hi ha hp hr
      · cases h
        exact .idle hi fun h' pkt' hsome => by
          rw [ha] at hsome
          cases hsome
          exact ⟨hsnk, hsrc⟩

/-- What the source hands on: packets, and then requests for events. -/
theorem handOn_spec {s : State S K T} {src : S} {r : State S K T × List (Network.HostAct T)}
    (h : C.handOn E s src = some r) :
    ∃ pkts times, pkts = ((E.source src).sent.drop (E.source s.src).sent.length).map Sent.pkt ∧
      times = (E.source src).pending.drop (E.source s.src).pending.length ∧
      (∀ time ∈ times, time < 2 ^ 64) ∧
      r = ({ s with src := src, data := s.data ++ pkts.zipIdx s.net.sent.length },
        ((pkts.map DataPacket.size).map fun size => .send C.routeFwd C.flow size) ++
          times.map fun time => .timer C.src (UInt64.ofNat time)) := by
  simp only [handOn] at h
  split_ifs at h with htimes
  cases h
  refine ⟨_, _, rfl, rfl, htimes, ?_⟩
  simp only [List.map_map]
  rfl

/-- A packet that is found is among those made. -/
theorem lookup_spec {α : Type} {made : List (α × Nat)} {n : Nat} {p : α}
    (h : State.lookup made n = some p) : (p, n) ∈ made := by
  obtain ⟨e, he, rfl⟩ := Option.map_eq_some_iff.mp h
  have hn : e.2 = n := by simpa using List.find?_some he
  rw [← hn]
  exact List.mem_of_find?_eq_some he

/-! ### New packets -/

/-- Packets with the next numbers come behind all others. -/
theorem order_append {α : Type} {made : List (α × Nat)} {new : List α} {len : Nat}
    (h : (made.map Prod.snd).Pairwise (· < ·)) (hlt : ∀ e ∈ made, e.2 < len) :
    ((made ++ new.zipIdx len).map Prod.snd).Pairwise (· < ·) := by
  rw [List.map_append, List.zipIdx_map_snd]
  refine List.pairwise_append.mpr ⟨h, List.pairwise_lt_range', fun m hm n hn => ?_⟩
  obtain ⟨e, he, rfl⟩ := List.mem_map.mp hm
  exact (hlt e he).trans_le (List.mem_range'_1.mp hn).1

/-- Packets are on the route they were sent over, those sent later included. -/
theorem hops_append {α : Type} {made : List (α × Nat)} {new : List α} {net net' : Network T}
    {hops : List Nat} (hlater : Network.Later net net')
    (hold : ∀ e ∈ made, net.hopsOf e.2 = some hops)
    (hnew : ∀ k < new.length, net'.hopsOf (net.sent.length + k) = some hops) :
    ∀ e ∈ made ++ new.zipIdx net.sent.length, net'.hopsOf e.2 = some hops := by
  intro e he
  rcases List.mem_append.mp he with he | he
  · rw [hlater.hops _ (Network.hopsOf_lt (hold e he))]
    exact hold e he
  · obtain ⟨hle, hlt, -⟩ := List.mem_zipIdx (x := e.1) (i := e.2) he
    obtain ⟨k, hk⟩ := Nat.exists_eq_add_of_le hle
    rw [hk]
    exact hnew k (by omega)

/-! ### The invariant -/

theorem asked_own {c : Nat} (hc : (T.kind c).isHost) {u v : Network T} {route : Route T}
    {flow : Nat} {sizes times : List Nat} {others : List (Network.HostAct T)}
    (htimes : ∀ time ∈ times, time < 2 ^ 64)
    (hothers : ∀ a ∈ others, ∀ host time, a = .timer host time → host ≠ c)
    (h : u.hostActs ((sizes.map (fun size => .send route flow size) ++
      times.map fun time => .timer c (UInt64.ofNat time)) ++ others) = some v) :
    Network.Asked c times u v := by
  rw [Network.hostActs_append] at h
  obtain ⟨u₂, h₂, hlast⟩ := Option.bind_eq_some_iff.mp h
  rw [Network.hostActs_append] at h₂
  obtain ⟨u₁, h₁, htimer⟩ := Option.bind_eq_some_iff.mp h₂
  have hsends : Network.Asked c [] u u₁ := by
    refine Network.asked_hostActs hc (fun a ha host time heq => ?_) h₁
    obtain ⟨size, -, rfl⟩ := List.mem_map.mp ha
    cases heq
  have hall := (hsends.trans (Network.asked_timers htimes htimer)).trans
    (Network.asked_hostActs hc hothers hlast)
  rw [List.nil_append, List.append_nil] at hall
  exact hall

theorem not_timer_of_foreign {others : List (Network.HostAct T)} (h : ∀ a ∈ others, C.Foreign a) :
    ∀ a ∈ others, ∀ host time, a = .timer host time → host ≠ C.src := by
  rintro a ha host time rfl
  exact (h _ ha).1

theorem ok_init (C : Connection T) (E : Endhost S K) (flowsize duration : Nat)
    (startTime : UInt64) : Ok C E (C.init E flowsize duration startTime) where
  net := by
    refine ⟨[.hosts [.timer C.src startTime]], ?_⟩
    have hhost := C.host_src
    simp only [Network.system, Lts.run_cons, Network.step, Network.hostActs, Network.hostAct,
      if_pos hhost]
    rfl
  list :=
    { sorted := List.pairwise_singleton _ _
      future := fun e he => Nat.zero_le _
      bounded := fun e he => by
        rw [List.mem_singleton.mp he]
        exact startTime.toNat_lt
      now_lt := Nat.two_pow_pos 64
      endless := rfl }
  pending := by
    have hsource : (E.source (C.init E flowsize duration startTime).src).pending =
        [startTime.toNat] := by
      show (E.source (E.newSrc flowsize duration startTime.toNat 0)).pending = _
      rw [E.source_newSrc]
      rfl
    have hown : ((C.init E flowsize duration startTime).net.list.view C.src).ownEvents =
        [startTime.toNat] := by
      simp [init, EventList.view, EventList.mapSrc, EventList.ownEvents, EventList.seenBy]
    rw [hsource, hown]
  data := fun e he => absurd he List.not_mem_nil
  acks := fun e he => absurd he List.not_mem_nil
  dataOrder := List.Pairwise.nil
  acksOrder := List.Pairwise.nil

/-- The parts of a step: other hosts act, or an event is dispatched. -/
theorem step_cases {s t : State S K T} {a : Network.Act T} (h : C.step E s a = some t) :
    s.alive = true ∧
      ((∃ others net, a = .hosts others ∧ (∀ a ∈ others, C.Foreign a) ∧
          s.net.step (.hosts others) = some net ∧ t = { s with net := net }) ∨
        ∃ others i l r net, a = .dispatch others ∧ (∀ a ∈ others, C.Foreign a) ∧
          s.net.list.next = .event i l ∧ Reacts C E s i l.now r ∧
          s.net.step (.dispatch (r.2 ++ others)) = some net ∧ t = { r.1 with net := net }) := by
  cases a with
  | hosts others =>
    simp only [step] at h
    split_ifs at h with hs
    obtain ⟨net, hnet, rfl⟩ := Option.map_eq_some_iff.mp h
    exact ⟨hs.1, Or.inl ⟨others, net, rfl, hs.2, hnet, rfl⟩⟩
  | dispatch others =>
    simp only [step] at h
    split_ifs at h with hs
    split at h
    · rename_i i l hnext
      obtain ⟨r, hr, hrest⟩ := Option.bind_eq_some_iff.mp h
      obtain ⟨net, hnet, rfl⟩ := Option.map_eq_some_iff.mp hrest
      exact ⟨hs.1, Or.inr ⟨others, i, l, r, net, rfl, hs.2, hnext, react_reacts hr, hnet, rfl⟩⟩
    · cases h

/-- A dispatch in which the flow sends packets of given sizes over one route, and its source asks
    for events. -/
theorem Ok.dispatch {s s' : State S K T} (h : Ok C E s) {others : List (Network.HostAct T)}
    (hothers : ∀ a ∈ others, C.Foreign a) {i : Nat} {l : EventList Nat} {net : Network T}
    (hnext : s.net.list.next = .event i l) (route : Route T) (sizes times : List Nat)
    (data : List DataPacket) (acks : List DataAck)
    (hstep : s.net.step (.dispatch ((sizes.map (fun size => .send route C.flow size) ++
      times.map fun time => .timer C.src (UInt64.ofNat time)) ++ others)) = some net)
    (htimes : ∀ time ∈ times, time < 2 ^ 64)
    (hpending : ((l.view C.src).ownEvents ++ times).Perm (E.source s'.src).pending)
    (hdata : s'.data = s.data ++ data.zipIdx s.net.sent.length)
    (hnewData : ∀ k < data.length, net.hopsOf (s.net.sent.length + k) = some C.routeFwd.hops)
    (hacks : s'.acks = s.acks ++ acks.zipIdx s.net.sent.length)
    (hnewAcks : ∀ k < acks.length, net.hopsOf (s.net.sent.length + k) = some C.routeRev.hops) :
    Ok C E { s' with net := net } ∧ net.list.now = l.now := by
  have hlater := Network.later_step hstep
  have hreach : (Network.system T).Reachable (Network.start T) net :=
    h.net.tail (a := .dispatch _) hstep
  obtain ⟨hord, hnow, hperm⟩ := Network.asked_dispatch C.host_src
    (Network.projects_reachable h.net) h.list
    (asked_own C.host_src htimes (not_timer_of_foreign hothers)) hstep hnext
  refine ⟨⟨hreach, hord, hperm.trans hpending, ?_, ?_, ?_, ?_⟩, hnow⟩
  · show ∀ e ∈ s'.data, net.hopsOf e.2 = _
    rw [hdata]
    exact hops_append hlater h.data hnewData
  · show ∀ e ∈ s'.acks, net.hopsOf e.2 = _
    rw [hacks]
    exact hops_append hlater h.acks hnewAcks
  · show (s'.data.map Prod.snd).Pairwise (· < ·)
    rw [hdata]
    exact order_append h.dataOrder fun e he => Network.hopsOf_lt (h.data e he)
  · show (s'.acks.map Prod.snd).Pairwise (· < ·)
    rw [hacks]
    exact order_append h.acksOrder fun e he => Network.hopsOf_lt (h.acks e he)

/-- What the source has asked for is behind what was pending. -/
theorem pending_perm {b b' : DataSource} {own : List Nat} (hown : own.Perm b.pending)
    (hgrows : b.pending <+: b'.pending) :
    (own ++ b'.pending.drop b.pending.length).Perm b'.pending := by
  refine (hown.append_right _).trans ?_
  rw [List.prefix_iff_eq_append.mp hgrows]

/-- What the source hands on in a dispatch. -/
theorem Ok.handOn {s : State S K T} (h : Ok C E s) (s₀ : State S K T)
    {others : List (Network.HostAct T)} (hothers : ∀ a ∈ others, C.Foreign a) {i : Nat}
    {l : EventList Nat} {net : Network T} {r : State S K T × List (Network.HostAct T)} {src : S}
    (hnext : s.net.list.next = .event i l) (hnet : s₀.net = s.net) (hdata : s₀.data = s.data)
    (hacks : s₀.acks = s.acks) (hr : C.handOn E s₀ src = some r)
    (hpending : (l.view C.src).ownEvents.Perm (E.source s₀.src).pending)
    (hgrows : (E.source s₀.src).pending <+: (E.source src).pending)
    (hstep : s.net.step (.dispatch (r.2 ++ others)) = some net) :
    Ok C E { r.1 with net := net } ∧ net.list.now = l.now := by
  obtain ⟨pkts, times, -, htime, htimes, rfl⟩ := handOn_spec hr
  refine h.dispatch hothers hnext C.routeFwd (pkts.map DataPacket.size) times pkts [] hstep htimes
    ?_ ?_ ?_ ?_ ?_
  · rw [htime]
    exact pending_perm hpending hgrows
  · show s₀.data ++ pkts.zipIdx s₀.net.sent.length = _
    rw [hdata, hnet]
  · rw [List.append_assoc] at hstep
    have hsent := Network.hops_dispatch hstep
    rw [List.length_map] at hsent
    exact hsent
  · show s₀.acks = _
    rw [hacks, List.zipIdx_nil, List.append_nil]
  · exact fun k hk => absurd hk (Nat.not_lt_zero k)

theorem ok_dispatch (hE : E.Registers) {s : State S K T} (h : Ok C E s)
    {others : List (Network.HostAct T)} (hothers : ∀ a ∈ others, C.Foreign a) {i : Nat}
    {l : EventList Nat} {r : State S K T × List (Network.HostAct T)} {net : Network T}
    (hnext : s.net.list.next = .event i l) (hr : Reacts C E s i l.now r)
    (hstep : s.net.step (.dispatch (r.2 ++ others)) = some net) :
    Ok C E { r.1 with net := net } ∧ net.list.now = l.now := by
  obtain ⟨-, -, -, hother, hself⟩ := Network.own_next h.list hnext
  have hnone : ∀ {α : Type} (xs : List (α × Nat)), xs = xs ++ ([] : List α).zipIdx
      s.net.sent.length := fun xs => by rw [List.zipIdx_nil, List.append_nil]
  have hnoNew : ∀ (hops : List Nat), ∀ k < 0, net.hopsOf (s.net.sent.length + k) = some hops :=
    fun _ k hk => absurd hk (Nat.not_lt_zero k)
  have hsame : i ≠ C.src → (l.view C.src).ownEvents.Perm (E.source s.src).pending := fun hi => by
    rw [hother hi]
    exact h.pending
  -- the event of the source was the first of those it had asked for
  have hpop : i = C.src →
      (l.view C.src).ownEvents.Perm (E.source (s.popEvent E l.now).src).pending := fun hi => by
    have hperm := h.pending
    rw [hself hi] at hperm
    simp only [State.popEvent, E.source_setSource]
    exact (List.cons_perm_iff_perm_erase.mp hperm).2
  cases hr with
  | idle hi =>
    refine h.dispatch hothers hnext C.routeFwd [] [] [] [] hstep
      (fun _ ht => absurd ht List.not_mem_nil) ?_ (hnone _) (hnoNew _) (hnone _) (hnoNew _)
    rw [List.append_nil]
    exact hsame hi
  | event hi hdo hr =>
    have hgrows := hE.event hdo
    exact h.handOn (s.popEvent E l.now) hothers hnext rfl rfl rfl hr (hpop hi) hgrows hstep
  | deleted hi =>
    refine h.dispatch hothers hnext C.routeFwd [] [] [] [] hstep
      (fun _ ht => absurd ht List.not_mem_nil) ?_ (hnone _) (hnoNew _) (hnone _) (hnoNew _)
    rw [List.append_nil]
    exact hpop hi
  | @data hi h' pkt p ha hp =>
    refine h.dispatch hothers hnext C.routeRev [ACK_SIZE] [] []
      [(E.sinkReceive l.now { p with ecnFwd := p.ecnFwd || pkt.ecnFwd } s.sink).2] hstep
      (fun _ ht => absurd ht List.not_mem_nil) ?_ (hnone _) (hnoNew _) rfl ?_
    · rw [List.append_nil]
      exact hsame hi
    · have hstep' : s.net.step (.dispatch (([ACK_SIZE].map fun size =>
          .send C.routeRev C.flow size) ++ others)) = some net := hstep
      exact Network.hops_dispatch hstep'
  | ack hi ha hp hr =>
    exact h.handOn s hothers hnext rfl rfl rfl hr (hsame hi) (hE.receive _ _ _) hstep

theorem ok_step (hE : E.Registers) {s t : State S K T} {a : Network.Act T} (h : Ok C E s)
    (hstep : C.step E s a = some t) : Ok C E t := by
  obtain ⟨-, ⟨others, net, -, hothers, hnet, rfl⟩ | ⟨others, i, l, r, net, -, hothers, hnext, hr,
    hnet, rfl⟩⟩ := step_cases hstep
  · have hlater := Network.later_step hnet
    have hreach : (Network.system T).Reachable (Network.start T) net :=
      h.net.tail (a := .hosts others) hnet
    obtain ⟨hord, -, hperm⟩ := Network.asked_hostActs C.host_src (not_timer_of_foreign hothers)
      hnet h.list
    rw [List.append_nil] at hperm
    exact ⟨hreach, hord, hperm.trans h.pending,
      fun e he => (hlater.hops _ (Network.hopsOf_lt (h.data e he))).trans (h.data e he),
      fun e he => (hlater.hops _ (Network.hopsOf_lt (h.acks e he))).trans (h.acks e he),
      h.dataOrder, h.acksOrder⟩
  · exact (ok_dispatch hE h hothers hnext hr hnet).1

end Connection

end Htsim
end DatacenterNetworking
