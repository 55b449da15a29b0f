/-
  DatacenterNetworking.Conga.Testbed

  The CONGA testbed with `ecmp = 0` (`test_conga_testbed.cpp`): the network that
  `routeGenerate`, `FlowGenerator::createFlow` and `congaRoute::updateRoute` make,
  and `Packet::sendOn` through it.

  All packets of a flow in one direction share one route vector.  A packet knows
  only the index of its next hop in it.

  A packet leaves a queue or a pipe when it is the oldest one there; when that
  happens is left open, so the runs include those of every service rate and link
  delay.  The congestion metric a core queue stamps is an input: it is computed in
  floating point.  What the end hosts send is an input as well.
-/

import DatacenterNetworking.Conga.Tor

namespace DatacenterNetworking
namespace Conga
namespace Testbed

/-- `CoreQueue::N_CORE`. -/
def N_CORE : Nat := 2

/-- `ToR::N_TOR`, the number of leaves. -/
def N_LEAF : Nat := 8

/-- `N_SERVER`, servers for each leaf. -/
def N_SERVER : Nat := 8

def LEAF_BUFFER : Nat := 512000

def CORE_BUFFER : Nat := 1024000

def ENDH_BUFFER : Nat := 8192000

/-- The network elements, by the arrays that hold them.  An end-host queue, a source and a
    sink belong to a flow. -/
inductive Hop where
  | endhostQ (flow : Nat)
  | qServerToR (leaf server : Nat)
  | pServerToR (leaf server : Nat)
  | tor (leaf : Nat)
  | qToRCore (core leaf : Nat)
  | pToRCore (core leaf : Nat)
  | qCoreToR (core leaf : Nat)
  | pCoreToR (core leaf : Nat)
  | qToRServer (leaf server : Nat)
  | pToRServer (leaf server : Nat)
  | src (flow : Nat)
  | snk (flow : Nat)
  deriving DecidableEq, Repr

/-- The `_maxsize` of a queue; a pipe has none. -/
def Hop.maxsize : Hop → Option Nat
  | .endhostQ _ => some ENDH_BUFFER
  | .qServerToR _ _ => some LEAF_BUFFER
  | .qToRServer _ _ => some LEAF_BUFFER
  | .qToRCore _ _ => some CORE_BUFFER
  | .qCoreToR _ _ => some CORE_BUFFER
  | _ => none

/-- A packet.  `loc` is the element that holds it.  `stamped`, `trail` and `ceCore` are its
    history: whether its source ToR has tagged it, the elements between the ToRs that it
    was handed to since, and the core whose queue wrote its `ce`. -/
structure Pkt where
  flow : Nat
  rev : Bool
  size : Nat
  nexthop : Nat
  passedCore : Bool
  vxlan : Vxlan
  loc : Hop
  stamped : Bool
  trail : List Hop
  ceCore : Option Nat

/-- What `routeGenerate` and `createFlow` fix for a flow; `endhostQ` says whether it has an
    end-host queue. -/
structure FlowSpec where
  srcToR : Nat
  sInRack : Nat
  dstToR : Nat
  dInRack : Nat
  core : Nat
  endhostQ : Bool

/-- The testbed: the ToRs, the `_endhostQ` and the flow count of the flow generator, the
    route vectors of the flows in both directions, and the packets in the order in which
    they reached the element that holds them.  `specs` and `readings` are histories: how a
    flow was created, and for each packet that reached its destination ToR its tag and the
    core that its `ce` was measured on. -/
structure State where
  tors : Nat → ToR
  endhostQ : Bool
  nFlows : Nat
  routes : Nat → Bool → List Hop
  pkts : List Pkt
  specs : Nat → FlowSpec
  readings : List (Nat × Option Nat)

/-! ## Routes -/

/-- `conga::simpleHash`; its arguments are `uint32_t`. -/
def simpleHash (val1 val2 : Nat) : Nat := (val1 + val2) % 2 ^ 32 % 256

/-- `conga::routeGenerate`, from the five values of `rand()` it draws.  Its routes have no
    end-host queue. -/
def routeGenerate (r₁ r₂ r₃ r₄ r₅ : Nat) : FlowSpec :=
  let srcToR := r₁ % N_LEAF
  let dstToR := (srcToR + 1 + r₂ % (N_LEAF - 1)) % 256 % N_LEAF
  let sInRack := r₃ % N_SERVER
  let dInRack := r₄ % N_SERVER
  { srcToR := srcToR
    sInRack := sInRack
    dstToR := dstToR
    dInRack := dInRack
    core := simpleHash (srcToR * N_LEAF + sInRack) r₅ % N_CORE
    endhostQ := false }

/-- The end-host queue that `createFlow` puts in front, if the flag is set. -/
def FlowSpec.endhost (sp : FlowSpec) (flow : Nat) : List Hop :=
  if sp.endhostQ then [.endhostQ flow] else []

/-- The forward route, with the end-host queue and the sink that `createFlow` adds. -/
def FlowSpec.fwd (sp : FlowSpec) (flow : Nat) : List Hop :=
  sp.endhost flow ++
    [.qServerToR sp.srcToR sp.sInRack, .pServerToR sp.srcToR sp.sInRack, .tor sp.srcToR,
      .qToRCore sp.core sp.srcToR, .pToRCore sp.core sp.srcToR,
      .qCoreToR sp.core sp.dstToR, .pCoreToR sp.core sp.dstToR,
      .tor sp.dstToR, .qToRServer sp.dstToR sp.dInRack, .pToRServer sp.dstToR sp.dInRack,
      .snk flow]

/-- The reverse route, with the source that `createFlow` adds. -/
def FlowSpec.bwd (sp : FlowSpec) (flow : Nat) : List Hop :=
  [.qServerToR sp.dstToR sp.dInRack, .pServerToR sp.dstToR sp.dInRack, .tor sp.dstToR,
    .qToRCore sp.core sp.dstToR, .pToRCore sp.core sp.dstToR,
    .qCoreToR sp.core sp.srcToR, .pCoreToR sp.core sp.srcToR,
    .tor sp.srcToR, .qToRServer sp.srcToR sp.sInRack, .pToRServer sp.srcToR sp.sInRack,
    .src flow]

/-- `congaRoute::updateRoute`: four hops from `nexthop` on. -/
def updateRoute (route : List Hop) (nexthop core : Nat) (v : Vxlan) : List Hop :=
  (((route.set nexthop (.qToRCore core v.src)).set (nexthop + 1) (.pToRCore core v.src)).set
    (nexthop + 2) (.qCoreToR core v.dst)).set (nexthop + 3) (.pCoreToR core v.dst)

namespace State

/-- The route vector a packet uses. -/
def route (s : State) (p : Pkt) : List Hop := s.routes p.flow p.rev

/-- The leaf that `route[size - 4]` leads to; `none` if that is no ToR. -/
def dstTor (s : State) (p : Pkt) : Option Nat :=
  match (s.route p)[(s.route p).length - 4]? with
  | some (.tor leaf) => some leaf
  | _ => none

/-- Bytes in the queue `h`. -/
def occupancy (s : State) (h : Hop) : Nat :=
  ((s.pkts.filter fun p => p.loc = h).map Pkt.size).sum

end State

/-- The packet is handed to the element `h`, which keeps it. -/
def Pkt.handed (p : Pkt) (h : Hop) : Pkt :=
  { p with
    loc := h
    trail := if p.stamped ∧ p.trail.length < 4 then p.trail ++ [h] else p.trail }

/-- A queue or pipe receives the packet; a full queue drops it. -/
def State.enqueue (s : State) (p : Pkt) (h : Hop) : State :=
  match h.maxsize with
  | some maxsize =>
      if maxsize < s.occupancy h + p.size then s else { s with pkts := s.pkts ++ [p.handed h] }
  | none => { s with pkts := s.pkts ++ [p.handed h] }

/-- `CoreQueue::receivePacket` before it queues the packet: the metric and the flag.  The
    next hop must be a ToR. -/
def State.stampCe (s : State) (core ce : Nat) (p : Pkt) : Option Pkt :=
  match (s.route p)[p.nexthop + 1]? with
  | some (.tor _) =>
      some { p with vxlan := { p.vxlan with ce := ce }, passedCore := true, ceCore := some core }
  | _ => none

/-- `receivePacket` of every element but a ToR.  The end hosts free the packet. -/
def State.receiveAt (s : State) (ce : Nat) (p : Pkt) : Hop → Option State
  | .tor _ => none
  | .src _ => some s
  | .snk _ => some s
  | .qCoreToR core leaf =>
      (s.stampCe core ce p).map fun p' => s.enqueue p' (.qCoreToR core leaf)
  | h => some (s.enqueue p h)

/-- `ToR::asSrcToR`, with `updateRoute`. -/
def State.asSrcToR (s : State) (rand leaf : Nat) (p : Pkt) : Option (State × Pkt) :=
  (s.dstTor p).map fun dst =>
    let r := (s.tors leaf).asSrcToR N_CORE rand dst
    ({ s with
        tors := Function.update s.tors leaf r.1
        routes := Function.update s.routes p.flow
          (Function.update (s.routes p.flow) p.rev
            (updateRoute (s.route p) p.nexthop r.2.lbtag r.2)) },
      { p with vxlan := r.2, stamped := true, trail := [], ceCore := none })

/-- `ToR::asDstToR`. -/
def State.asDstToR (s : State) (leaf : Nat) (p : Pkt) : State :=
  { s with
    tors := Function.update s.tors leaf ((s.tors leaf).asDstToR p.vxlan)
    readings := (p.vxlan.lbtag, p.ceCore) :: s.readings }

/-- `Packet::sendOn`, through any ToRs to the next element that keeps the packet.  `fuel` is
    the number of hops left. -/
def State.sendOn (rand ce : Nat) : Nat → State → Pkt → Option State
  | 0, _, _ => none
  | fuel + 1, s, p =>
      match (s.route p)[p.nexthop]? with
      | none => none
      | some (.tor leaf) =>
          let p' := { p with nexthop := p.nexthop + 1 }
          if p.passedCore then State.sendOn rand ce fuel (s.asDstToR leaf p') p'
          else (s.asSrcToR rand leaf p').bind fun r => State.sendOn rand ce fuel r.1 r.2
      | some h => s.receiveAt ce { p with nexthop := p.nexthop + 1 } h

/-! ## The testbed as a system -/

/-- A flow is created; an end host sends a packet (a reused one keeps its old tags); the
    packet at place `i` leaves the element that holds it.  `rand` and `ce` are what a ToR
    and a core queue on its way draw and measure. -/
inductive Act where
  | createFlow (r₁ r₂ r₃ r₄ r₅ : Nat)
  | emit (flow : Nat) (rev : Bool) (size : Nat) (old : Vxlan) (rand ce : Nat)
  | depart (i rand ce : Nat)
  deriving DecidableEq, Repr

/-- A new packet of a flow (`newpkt`). -/
def Pkt.new (flow : Nat) (rev : Bool) (size : Nat) (old : Vxlan) : Pkt where
  flow := flow
  rev := rev
  size := size
  nexthop := 0
  passedCore := false
  vxlan := old
  loc := if rev then .snk flow else .src flow
  stamped := false
  trail := []
  ceCore := none

/-- `p` is the oldest packet of those at its element: no packet before place `i` is there. -/
def State.oldest (s : State) (i : Nat) (p : Pkt) : Prop := ∀ q ∈ s.pkts.take i, q.loc ≠ p.loc

instance (s : State) (i : Nat) (p : Pkt) : Decidable (s.oldest i p) :=
  inferInstanceAs (Decidable (∀ q ∈ s.pkts.take i, q.loc ≠ p.loc))

/-- The transition function. -/
def step (s : State) : Act → Option State
  | .createFlow r₁ r₂ r₃ r₄ r₅ =>
      let sp := { routeGenerate r₁ r₂ r₃ r₄ r₅ with endhostQ := s.endhostQ }
      some { s with
        nFlows := s.nFlows + 1
        specs := Function.update s.specs s.nFlows sp
        routes := Function.update s.routes s.nFlows
          fun rev => if rev then sp.bwd s.nFlows else sp.fwd s.nFlows }
  | .emit flow rev size old rand ce =>
      if flow < s.nFlows then
        let p := Pkt.new flow rev size old
        s.sendOn rand ce (s.route p).length p
      else none
  | .depart i rand ce =>
      s.pkts[i]?.bind fun p =>
        if s.oldest i p then
          { s with pkts := s.pkts.eraseIdx i }.sendOn rand ce (s.route p).length p
        else none

/-- The testbed. -/
def system : Lts State Act where
  step := step

/-- As built, with or without end-host queues: no flows, the feedback tags of the ToRs drawn
    at random. -/
def built (endhostQ : Bool) (nxtLbTag : Nat → Nat → Nat) : State where
  tors := fun leaf => ToR.new leaf (nxtLbTag leaf)
  endhostQ := endhostQ
  nFlows := 0
  routes := fun _ _ => []
  pkts := []
  specs := fun _ => ⟨0, 0, 0, 0, 0, false⟩
  readings := []

/-- `conga_testbed` calls `setEndhostQueue`. -/
def init (nxtLbTag : Nat → Nat → Nat) : State := built true nxtLbTag

end Testbed
end Conga
end DatacenterNetworking
