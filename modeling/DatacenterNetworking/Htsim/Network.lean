/-
  DatacenterNetworking.Htsim.Network

  Packets that travel over routes of queues and pipes (`network.cpp`, `network.h`), with
  one event list for all.  A packet knows its route and the index of its next hop;
  `Packet::sendOn` hands it to that hop.  The elements are numbered, and a packet is
  known by the number it is made with.

  What the hosts at the ends compute is left open.  They may have events at any time,
  and send what they like, over any routes, whenever they have an event or get a packet.

  A route of the testbeds goes through queues and pipes, no element twice: a queue comes
  first, behind a pipe comes a queue or the host at the end.  So no element gets a packet
  back while it sends one on.
-/

import DatacenterNetworking.Htsim.EventView
import DatacenterNetworking.Htsim.FifoQueue
import DatacenterNetworking.Htsim.Pipe

namespace DatacenterNetworking
namespace Htsim

/-- The elements: `Queue`, `Pipe`, and the hosts, which are sources and sinks. -/
inductive Kind where
  | queue (cfg : QueueCfg)
  | pipe (delay : UInt64)
  | host

namespace Kind

/-- Their variables; of a host, the packets it got, with the times. -/
def State : Kind → Type
  | .queue _ => FifoQueue
  | .pipe _ => Pipe
  | .host => List (Nat × Packet)

/-- As constructed. -/
def new : (k : Kind) → k.State
  | .queue _ => FifoQueue.new
  | .pipe _ => Pipe.new
  | .host => ([] : List (Nat × Packet))

/-- A host as a component; what it does in an event is an action of the network. -/
def hostComponent : Component (List (Nat × Packet)) where
  receivePacket := fun now pkt got => some (got ++ [(now, pkt)], [])
  doNextEvent := fun _ got => some (got, [])

def component : (k : Kind) → Component k.State
  | .queue cfg => FifoQueue.component cfg
  | .pipe delay => Pipe.component delay
  | .host => hostComponent

/-- The packet that is sent on in an event. -/
def sends : (k : Kind) → k.State → Option Packet
  | .queue cfg, q => q.enqueued.head?.map fun pkt =>
      applyEcnMark cfg.bitrate ((q.queuesize + 2 ^ 64 - pkt.size) % 2 ^ 64) pkt
  | .pipe _, p => p.inflight.head?.map Prod.snd
  | .host, _ => none

def isQueue : Kind → Bool
  | .queue _ => true
  | _ => false

def isHost : Kind → Bool
  | .host => true
  | _ => false

end Kind

/-- The elements by their numbers, and the largest size of a packet, which overflows neither the
    size of a queue nor the time of a service. -/
structure Topology where
  kind : Nat → Kind
  mtu : Nat
  fits : ∀ {i cfg}, kind i = .queue cfg →
    cfg.maxsize + mtu < 2 ^ 64 ∧ mtu * cfg.psPerByte < 2 ^ 64

namespace Topology

/-- The second element may come behind the first on a route. -/
def link (T : Topology) (a b : Nat) : Bool :=
  match T.kind a, T.kind b with
  | .queue _, .queue _ => true
  | .queue _, .pipe _ => true
  | .pipe _, .queue _ => true
  | .pipe _, .host => true
  | _, _ => false

end Topology

/-- A `route_t`. -/
structure Route (T : Topology) where
  hops : List Nat
  first : ∀ i ∈ hops.head?, (T.kind i).isQueue
  last : ∃ i ∈ hops.getLast?, (T.kind i).isHost
  links : hops.IsChain fun a b => T.link a b
  nodup : hops.Nodup

/-- A packet: its route, its size, and the index `_nexthop`; `time` is when it was made. -/
structure Traveller (T : Topology) where
  route : Route T
  size : Nat
  time : Nat
  nexthop : Nat

/-- The network. -/
structure Network (T : Topology) where
  list : EventList Nat
  elems : (i : Nat) → (T.kind i).State
  sent : List (Traveller T)

namespace Network

variable {T : Topology}

/-- Nothing has happened. -/
def start (T : Topology) : Network T where
  list := EventList.get
  elems := fun i => (T.kind i).new
  sent := []

/-- `receivePacket` of element `i`. -/
def hand (s : Network T) (i : Nat) (pkt : Packet) : Option (Network T) :=
  ((T.kind i).component.receivePacket s.list.now pkt (s.elems i)).bind fun r =>
    (s.list.registerAt i r.2).map fun l =>
      { s with list := l, elems := Function.update s.elems i r.1 }

/-- `_nexthop++`. -/
def advance (s : Network T) (id : Nat) (e : Traveller T) : Network T :=
  { s with sent := s.sent.set id { e with nexthop := e.nexthop + 1 } }

/-- `Packet::sendOn`; `none` if there is no next hop. -/
def sendOn (s : Network T) (pkt : Packet) : Option (Network T) :=
  s.sent[pkt.id]?.bind fun e =>
    e.route.hops[e.nexthop]?.bind fun h => (s.advance pkt.id e).hand h pkt

/-- What a host may do: send a new packet, or have itself called. -/
inductive HostAct (T : Topology) where
  | send (route : Route T) (flow size : Nat)
  | timer (host : Nat) (time : UInt64)

/-- A new packet, on its way to the first hop. -/
def newpkt (s : Network T) (route : Route T) (size : Nat) : Network T :=
  { s with sent := s.sent ++ [⟨route, size, s.list.now, 0⟩] }

def hostAct (s : Network T) : HostAct T → Option (Network T)
  | .send route flow size =>
      if size ≤ T.mtu then
        (s.newpkt route size).sendOn { flow := flow, size := size, id := s.sent.length }
      else none
  | .timer host time =>
      if (T.kind host).isHost then
        (s.list.registerAt host [time.toNat]).map fun l => { s with list := l }
      else none

def hostActs (s : Network T) : List (HostAct T) → Option (Network T)
  | [] => some s
  | a :: rest => (s.hostAct a).bind fun s' => s'.hostActs rest

/-- What an element that handles its event sends on, if anything. -/
def emit (s : Network T) : Option Packet → Option (Network T)
  | none => some s
  | some pkt => s.sendOn pkt

/-- The hosts act at the current time, or the next event is dispatched.  When it is the event of a
    host, or of a pipe, which may bring a packet to a host, the hosts act before it ends. -/
inductive Act (T : Topology) where
  | hosts (acts : List (HostAct T))
  | dispatch (acts : List (HostAct T))

/-- The transition function; `none` when an assertion fails or there is no event. -/
def step (s : Network T) : Act T → Option (Network T)
  | .hosts acts => s.hostActs acts
  | .dispatch acts =>
      match s.list.next with
      | .event i l =>
          if acts = [] ∨ ¬ (T.kind i).isQueue then
            ((T.kind i).component.doNextEvent l.now (s.elems i)).bind fun r =>
              (emit { s with list := l, elems := Function.update s.elems i r.1 }
                ((T.kind i).sends (s.elems i))).bind fun s₁ =>
                (s₁.hostActs acts).bind fun s₂ =>
                  (s₂.list.registerAt i r.2).map fun l' => { s₂ with list := l' }
          else none
      | _ => none

/-- The network as a system. -/
def system (T : Topology) : Lts (Network T) (Act T) where
  step := step

end Network

/-! ## One link -/

/-- `LinkSpeed`, by default, and the speed of an end-host queue. -/
def linkSpeed : Nat := 10000000000

/-- `queueFwd` and `queueRev` of `test_single_link.cpp`, by default. -/
def linkQueue : QueueCfg where
  bitrate := linkSpeed
  maxsize := 512000
  bitrate_pos := by decide
  bitrate_le := by decide
  maxsize_lt := by decide

/-- The queue that `createFlow` puts in front of a route. -/
def endhostQueue : QueueCfg where
  bitrate := linkSpeed
  maxsize := 8192000
  bitrate_pos := by decide
  bitrate_le := by decide
  maxsize_lt := by decide

/-- `single_link_simulation` with one flow: `queueFwd` and `pipeFwd` lead to the sink 2, `queueRev`
    and `pipeRev` to the source 5, and 6 is the end-host queue. -/
def singleLink : Topology where
  kind := fun i =>
    match i with
    | 0 => .queue linkQueue
    | 1 => .pipe 12000000
    | 2 => .host
    | 3 => .queue linkQueue
    | 4 => .pipe 12000000
    | 5 => .host
    | 6 => .queue endhostQueue
    | _ => .host
  mtu := 1500
  fits := fun h => by
    split at h
    all_goals cases h
    all_goals decide

/-- `routeFwd`, with the end-host queue and the sink. -/
def routeFwd : Route singleLink where
  hops := [6, 0, 1, 2]
  first := by decide
  last := ⟨2, by decide⟩
  links := by decide
  nodup := by decide

/-- `routeRev`, with the source. -/
def routeRev : Route singleLink where
  hops := [3, 4, 5]
  first := by decide
  last := ⟨5, by decide⟩
  links := by decide
  nodup := by decide

/-- The source sends two segments, the first of which the sink acks. -/
def twoSegments : List (Network.Act singleLink) :=
  [.hosts [.send routeFwd 0 1500, .send routeFwd 0 1500], .dispatch [], .dispatch [], .dispatch [],
    .dispatch [], .dispatch [.send routeRev 0 40], .dispatch [], .dispatch [], .dispatch []]

/-- When all of them have arrived. -/
def arrivedSegments : Network singleLink :=
  ((Network.system singleLink).run (Network.start singleLink) twoSegments).get (by decide +kernel)

theorem reachable_arrivedSegments :
    (Network.system singleLink).Reachable (Network.start singleLink) arrivedSegments :=
  ⟨twoSegments, (Option.some_get _).symm⟩

end Htsim
end DatacenterNetworking
