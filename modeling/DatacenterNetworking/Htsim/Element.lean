/-
  DatacenterNetworking.Htsim.Element

  What packets pass on their way, and who has them: a packet that comes in is kept,
  sent on or freed.

  `Element` is a `PacketSink` that may be an `EventSource`, with the law that it
  neither loses nor makes packets.  When it has its events is left open.  Here are
  the elements without a discipline of their own (`Pipe`, `Queue`, `ToR`) and those
  that nothing else models: `ExoQueue`, `RandomQueue` and `PriorityQueue`.  The fair
  queues are in `Htsim.FairElements`.

  A `CoreQueue` hands every packet to `Queue::receivePacket`, and what it and a `ToR`
  write to the overlay header and the route is in `Conga.Tor` and `Conga.Testbed`.
-/

import DatacenterNetworking.Htsim.FifoQueue
import DatacenterNetworking.Htsim.Pipe
import DatacenterNetworking.Lib.Holdings
import DatacenterNetworking.Lib.StableInsert
import Mathlib.Algebra.Order.Ring.Rat

namespace DatacenterNetworking
namespace Htsim

/-- A packet without the mark that queues put on it. -/
structure Tag where
  flow : Nat
  size : Nat
  id : Nat
  deriving DecidableEq, Repr

/-- The packet, whatever its mark. -/
def Packet.tag (p : Packet) : Tag := ⟨p.flow, p.size, p.id⟩

/-- The packets, in no order. -/
def tags (pkts : List Packet) : Multiset Tag := (pkts.map Packet.tag : Multiset Tag)

@[simp] theorem tags_nil : tags [] = 0 := rfl

@[simp] theorem tags_append (ps qs : List Packet) : tags (ps ++ qs) = tags ps + tags qs := by
  simp only [tags, List.map_append, Multiset.coe_add]

theorem tags_cons (p : Packet) (ps : List Packet) : tags (p :: ps) = tags [p] + tags ps :=
  tags_append [p] ps

theorem tags_perm {ps qs : List Packet} (h : ps.Perm qs) : tags ps = tags qs :=
  Multiset.coe_eq_coe.mpr (h.map _)

@[simp] theorem tag_applyEcnMark (bitrate queuesize : Nat) (pkt : Packet) :
    tags [applyEcnMark bitrate queuesize pkt] = tags [pkt] := by
  simp only [applyEcnMark]
  split_ifs
  · rfl
  · rfl

/-- What has become of an element and of its packets. -/
structure Outcome (σ : Type) where
  state : σ
  sentOn : List Packet
  freed : List Packet

/-- An element: what it does with a packet and with an event of its own, `none` when it fails,
    and the packets it has.  `Ok` is what its constructor sets up and its methods keep. -/
structure Element where
  σ : Type
  new : σ
  receivePacket : Nat → Packet → σ → Option (Outcome σ)
  doNextEvent : Nat → σ → Option (Outcome σ)
  held : σ → Multiset Tag
  Ok : σ → Prop
  ok_new : Ok new
  held_new : held new = 0
  /-- The packet is kept, sent on or freed, or another one is in its place. -/
  receive {now : Nat} {pkt : Packet} {s : σ} {r : Outcome σ} (h : Ok s)
    (hr : receivePacket now pkt s = some r) :
    held r.state + (tags r.sentOn + tags r.freed) = held s + tags [pkt] ∧ Ok r.state
  /-- Only what is there is sent on or freed. -/
  next {now : Nat} {s : σ} {r : Outcome σ} (h : Ok s) (hr : doNextEvent now s = some r) :
    held r.state + (tags r.sentOn + tags r.freed) = held s ∧ Ok r.state

/-! ## Pipes and plain queues -/

/-- `Pipe`. -/
def Pipe.element (delay : UInt64) : Element where
  σ := Pipe
  new := new
  receivePacket := fun now pkt p =>
    (p.receivePacket delay now pkt).map fun r => ⟨r.1, [], []⟩
  doNextEvent := fun now p =>
    (p.doNextEvent now).map fun r =>
      ⟨r.1, (r.1.departed.drop p.departed.length).map Prod.snd, []⟩
  held := fun p => tags (p.inflight.map Prod.snd)
  Ok := fun _ => True
  ok_new := trivial
  held_new := rfl
  receive := fun _ hr => by
    cases hr
    simp
  next := fun {_ p _} _ hr => by
    cases hfront : p.inflight with
    | nil =>
      simp only [doNextEvent, hfront, Option.map_some, Option.some.injEq] at hr
      subst hr
      simp [hfront]
    | cons e rest =>
      simp only [doNextEvent, hfront, Option.map_some, Option.some.injEq] at hr
      subst hr
      rw [List.map_cons, tags_cons]
      simp [add_comm]

/-- `Queue`. -/
def FifoQueue.element (cfg : QueueCfg) : Element where
  σ := FifoQueue
  new := new
  receivePacket := fun now pkt q =>
    (q.receivePacket cfg now pkt).map fun r =>
      ⟨r.1, [], (r.1.dropped.drop q.dropped.length).map Prod.snd⟩
  doNextEvent := fun now q =>
    (q.doNextEvent cfg now).map fun r => ⟨r.1, r.1.sentOn.drop q.sentOn.length, []⟩
  held := fun q => tags q.enqueued
  Ok := fun _ => True
  ok_new := trivial
  held_new := rfl
  receive := fun _ hr => by
    simp only [receivePacket] at hr
    split_ifs at hr
    · cases hr
    · cases hr
      simp
    · cases hr
      simp
    · cases hr
      simp
  next := fun {_ q _} _ hr => by
    cases hfront : q.enqueued with
    | nil =>
      simp only [doNextEvent, hfront] at hr
      cases hr
    | cons pkt rest =>
      simp only [doNextEvent, hfront, Option.map_some, Option.some.injEq] at hr
      subst hr
      rw [tags_cons]
      simp [add_comm]

/-! ## Elements that pass packets on at once -/

/-- `ToR`: in either role it ends with `sendOn`. -/
def torElement : Element where
  σ := Unit
  new := ()
  receivePacket := fun _ pkt s => some ⟨s, [pkt], []⟩
  doNextEvent := fun _ _ => none
  held := fun _ => 0
  Ok := fun _ => True
  ok_new := trivial
  held_new := rfl
  receive := fun _ hr => by
    cases hr
    simp
  next := fun _ hr => by cases hr

/-- What `drand()` returns from now on. -/
abbrev Draws := Nat → Rat

/-- The draws after the next one. -/
def Draws.later (draws : Draws) : Draws := fun n => draws (n + 1)

/-- `ExoQueue`. -/
structure ExoQueue where
  lossRate : Rat
  draws : Draws

/-- `ExoQueue::receivePacket`. -/
def ExoQueue.receivePacket (pkt : Packet) (q : ExoQueue) : Outcome ExoQueue :=
  let q' := { q with draws := q.draws.later }
  if q.draws 0 < q.lossRate then ⟨q', [], [pkt]⟩ else ⟨q', [pkt], []⟩

/-- `ExoQueue` in the simulation. -/
def ExoQueue.element (lossRate : Rat) (draws : Draws) : Element where
  σ := ExoQueue
  new := { lossRate, draws }
  receivePacket := fun _ pkt q => some (q.receivePacket pkt)
  doNextEvent := fun _ _ => none
  held := fun _ => 0
  Ok := fun _ => True
  ok_new := trivial
  held_new := rfl
  receive := fun _ hr => by
    cases hr
    simp only [receivePacket]
    split_ifs
    · simp
    · simp
  next := fun _ hr => by cases hr

/-! ## `RandomQueue` -/

/-- The arguments of the constructor, and the rate that `set_packet_loss_rate` sets. -/
structure RandomQueueCfg extends QueueCfg where
  drop : Nat
  plr : Rat

/-- `_drop_th`, a difference of two `mem_b`. -/
def RandomQueueCfg.dropTh (cfg : RandomQueueCfg) : Nat := sub64 cfg.maxsize cfg.drop

/-- `RandomQueue`, a `Queue` that draws. -/
structure RandomQueue extends FifoQueue where
  bufferDrops : Nat
  draws : Draws

namespace RandomQueue

/-- The constructor. -/
def new (draws : Draws) : RandomQueue where
  toFifoQueue := FifoQueue.new
  bufferDrops := 0
  draws := draws

/-- The packet is freed. -/
def dropPacket (now : Nat) (pkt : Packet) (q : RandomQueue) : RandomQueue × List Nat :=
  ({ q with dropped := q.dropped ++ [(now, pkt)] }, [])

/-- `drand() < drop_prob`.  The probability is `1100.0 / _drop_th` above the threshold, which
    is infinite when the threshold is zero. -/
def dropsEarly (cfg : RandomQueueCfg) (crt : Nat) (draw : Rat) : Bool :=
  if cfg.dropTh < crt then draw * cfg.dropTh < 1100 else draw < 0

/-- `RandomQueue::receivePacket` after the loss of `_plr`. -/
def receiveKept (cfg : RandomQueueCfg) (now : Nat) (pkt : Packet) (q : RandomQueue) :
    RandomQueue × List Nat :=
  let crt := (q.queuesize + pkt.size) % 2 ^ 64
  if cfg.maxsize < crt then { q with bufferDrops := q.bufferDrops + 1 }.dropPacket now pkt
  else
    let q' := { q with draws := q.draws.later }
    if dropsEarly cfg crt (q.draws 0) then q'.dropPacket now pkt
    else
      ({ q' with
          enqueued := q.enqueued ++ [pkt]
          queuesize := crt
          accepted := q.accepted ++ [(now, pkt)] },
        if q.enqueued = [] then [FifoQueue.beginService cfg.toQueueCfg now pkt] else [])

/-- `RandomQueue::receivePacket`. -/
def receivePacket (cfg : RandomQueueCfg) (now : Nat) (pkt : Packet) (q : RandomQueue) :
    Option (RandomQueue × List Nat) :=
  -- a size is a `mem_b`
  if 2 ^ 64 ≤ pkt.size then none
  else if 0 < cfg.plr then
    let q' := { q with draws := q.draws.later }
    if q.draws 0 < cfg.plr then some (q'.dropPacket now pkt)
    else some (q'.receiveKept cfg now pkt)
  else some (q.receiveKept cfg now pkt)

/-- `doNextEvent` is that of `Queue`. -/
def doNextEvent (cfg : RandomQueueCfg) (now : Nat) (q : RandomQueue) :
    Option (RandomQueue × List Nat) :=
  (q.toFifoQueue.doNextEvent cfg.toQueueCfg now).map fun r =>
    ({ q with toFifoQueue := r.1 }, r.2)

/-- The packets freed on the way from `q` to `q'`. -/
def freedTo (q q' : RandomQueue) : List Packet :=
  (q'.dropped.drop q.dropped.length).map Prod.snd

theorem held_receiveKept (cfg : RandomQueueCfg) (now : Nat) (pkt : Packet) (q : RandomQueue) :
    tags (q.receiveKept cfg now pkt).1.enqueued + tags (q.freedTo (q.receiveKept cfg now pkt).1) =
      tags q.enqueued + tags [pkt] := by
  simp only [receiveKept, dropPacket, freedTo]
  split_ifs
  · simp
  · simp
  · simp
  · simp

theorem held_receivePacket {cfg : RandomQueueCfg} {now : Nat} {pkt : Packet} {q : RandomQueue}
    {r : RandomQueue × List Nat} (hr : q.receivePacket cfg now pkt = some r) :
    tags r.1.enqueued + tags (q.freedTo r.1) = tags q.enqueued + tags [pkt] := by
  simp only [receivePacket] at hr
  split_ifs at hr
  · cases hr
    simp [dropPacket, freedTo]
  · cases hr
    exact held_receiveKept cfg now pkt { q with draws := q.draws.later }
  · cases hr
    exact held_receiveKept cfg now pkt q

/-- `RandomQueue` in the simulation. -/
def element (cfg : RandomQueueCfg) (draws : Draws) : Element where
  σ := RandomQueue
  new := new draws
  receivePacket := fun now pkt q =>
    (q.receivePacket cfg now pkt).map fun r => ⟨r.1, [], q.freedTo r.1⟩
  doNextEvent := fun now q =>
    (q.doNextEvent cfg now).map fun r => ⟨r.1, r.1.sentOn.drop q.sentOn.length, []⟩
  held := fun q => tags q.enqueued
  Ok := fun _ => True
  ok_new := trivial
  held_new := rfl
  receive := fun _ hr => by
    obtain ⟨r, hrecv, rfl⟩ := Option.map_eq_some_iff.mp hr
    rw [tags_nil, zero_add]
    exact ⟨held_receivePacket hrecv, trivial⟩
  next := fun {now q _} _ hr => by
    obtain ⟨_, hnext, rfl⟩ := Option.map_eq_some_iff.mp hr
    obtain ⟨r, hqueue, rfl⟩ := Option.map_eq_some_iff.mp hnext
    have hheld := (FifoQueue.element cfg.toQueueCfg).next (s := q.toFifoQueue) trivial
      (Option.map_eq_some_iff.mpr ⟨r, hqueue, rfl⟩)
    exact hheld

end RandomQueue

end Htsim
end DatacenterNetworking
