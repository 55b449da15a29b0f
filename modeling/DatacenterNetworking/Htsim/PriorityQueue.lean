/-
  DatacenterNetworking.Htsim.PriorityQueue

  `PriorityQueue` (`priorityqueue.cpp`): the packet of the least priority is served
  next, and what does not fit is dropped from the end.

  The priority of a packet is not among the fields that queues share.  It comes with
  the arrivals, in `priorities`.  `_queuesize` has 64 bits and wraps.
-/

import DatacenterNetworking.Htsim.Element
import DatacenterNetworking.Lib.Word

namespace DatacenterNetworking
namespace Htsim

/-- `PriorityQueue`.  An entry of `packets` is a priority with its packet, the least first.
    `pending` counts the completion events registered, `priorities` are those of the packets
    to come. -/
structure PriorityQueue where
  bitrate : Nat
  maxsize : Nat
  queuesize : Nat
  packets : List (Nat × Packet)
  currentPkt : Option Packet
  pending : Nat
  priorities : Nat → Nat

namespace PriorityQueue

/-- The constructor.  It leaves `_currentPkt` uninitialised: any value. -/
def new (bitrate maxsize : Nat) (uninit : Option Packet) (priorities : Nat → Nat) :
    PriorityQueue where
  bitrate := bitrate
  maxsize := maxsize
  queuesize := 0
  packets := []
  currentPkt := uninit
  pending := 0
  priorities := priorities

/-- `PriorityQueue::beginService`. -/
def beginService (q : PriorityQueue) : PriorityQueue :=
  match q.packets with
  | [] => q
  | (_, pkt) :: rest =>
      { q with currentPkt := some pkt, packets := rest, pending := q.pending + 1 }

/-- `PriorityQueue::completeService` up to its call of `beginService`, with the packet that
    departs.  There is nothing to complete unless a completion event was registered. -/
def finishService (q : PriorityQueue) : Option (PriorityQueue × Packet) :=
  match q.pending, q.currentPkt with
  | n + 1, some pkt =>
      some ({ q with
          queuesize := Word.sub 64 q.queuesize pkt.size
          currentPkt := none
          pending := n }, applyEcnMark q.bitrate q.queuesize pkt)
  | _, _ => none

/-- `PriorityQueue::completeService`. -/
def completeService (q : PriorityQueue) : Option (PriorityQueue × Packet) :=
  q.finishService.map fun r => (r.1.beginService, r.2)

/-- `PriorityQueue::receivePacket` up to the overflow loop. -/
def enqueue (q : PriorityQueue) (pkt : Packet) : PriorityQueue :=
  { q with
    packets := insertByKey Prod.fst (q.priorities 0, pkt) q.packets
    queuesize := Word.add 64 q.queuesize pkt.size
    priorities := fun n => q.priorities (n + 1) }

/-- Body of the overflow loop: drop the packet at the end.  With no packet stored the code
    takes `prev` of an empty set; the loop ends here. -/
def dropTail (q : PriorityQueue) : PriorityQueue × List Packet :=
  match q.packets.getLast? with
  | none => (q, [])
  | some (_, p) =>
      ({ q with
        packets := q.packets.dropLast, queuesize := Word.sub 64 q.queuesize p.size }, [p])

/-- The overflow loop; each round removes one packet, so `fuel` is the number stored. -/
def dropOverflow : Nat → PriorityQueue → PriorityQueue × List Packet
  | 0, q => (q, [])
  | fuel + 1, q =>
      if q.maxsize < q.queuesize then
        let r := dropOverflow fuel q.dropTail.1
        (r.1, q.dropTail.2 ++ r.2)
      else (q, [])

/-- `PriorityQueue::receivePacket` up to its call of `beginService`, with the packets
    dropped. -/
def store (q : PriorityQueue) (pkt : Packet) : PriorityQueue × List Packet :=
  dropOverflow (q.enqueue pkt).packets.length (q.enqueue pkt)

/-- `queueWasEmpty`. -/
def wasEmpty (q : PriorityQueue) : Bool := q.currentPkt.isNone && q.packets.isEmpty

/-- `PriorityQueue::receivePacket`, with the packets dropped. -/
def receivePacket (q : PriorityQueue) (pkt : Packet) : PriorityQueue × List Packet :=
  if q.wasEmpty then ((q.store pkt).1.beginService, (q.store pkt).2) else q.store pkt

end PriorityQueue

/-! ## A packet in service -/

/-- The packet in service, when there is one: without a completion event `_currentPkt` is
    what the constructor left. -/
def tagServed (pending : Nat) (currentPkt : Option Packet) : Multiset Tag :=
  if pending = 0 then 0 else tags currentPkt.toList

/-- At most one packet is in service, and none after the last one was completed. -/
structure ServesOne (pending : Nat) (currentPkt : Option Packet) : Prop where
  pending_le : pending ≤ 1
  idle : currentPkt = none → pending = 0

/-- The entries but the last, and the last. -/
theorem tags_dropLast_snd {l : List (Nat × Packet)} {e : Nat × Packet}
    (h : l.getLast? = some e) :
    tags (l.dropLast.map Prod.snd) + tags [e.2] = tags (l.map Prod.snd) := by
  obtain ⟨init, rfl⟩ := List.getLast?_eq_some_iff.mp h
  rw [List.dropLast_concat, List.map_append, tags_append]
  rfl

/-- An entry is somewhere among the others. -/
theorem tags_insertByKey {κ : Type} [LinearOrder κ] (key : Nat × Packet → κ)
    (e : Nat × Packet) (l : List (Nat × Packet)) :
    tags ((insertByKey key e l).map Prod.snd) = tags (l.map Prod.snd) + tags [e.2] := by
  rw [tags_perm ((perm_insertByKey e l).map Prod.snd), List.map_cons, tags_cons, add_comm]

namespace PriorityQueue

variable {q : PriorityQueue}

/-- The packets waiting and the one in service. -/
def held (q : PriorityQueue) : Multiset Tag :=
  tags (q.packets.map Prod.snd) + tagServed q.pending q.currentPkt

theorem held_dropTail (q : PriorityQueue) : q.dropTail.1.held + tags q.dropTail.2 = q.held := by
  cases hlast : q.packets.getLast? with
  | none => simp [dropTail, hlast]
  | some e =>
    have htail := tags_dropLast_snd hlast
    simp only [dropTail, hlast, held]
    rw [← htail]
    abel

/-- A round of the overflow loop does not touch the service. -/
theorem service_dropTail (q : PriorityQueue) :
    q.dropTail.1.pending = q.pending ∧ q.dropTail.1.currentPkt = q.currentPkt := by
  simp only [dropTail]
  split
  · exact ⟨rfl, rfl⟩
  · exact ⟨rfl, rfl⟩

theorem dropOverflow_spec (fuel : Nat) (q : PriorityQueue) :
    (dropOverflow fuel q).1.held + tags (dropOverflow fuel q).2 = q.held ∧
      (dropOverflow fuel q).1.pending = q.pending ∧
      (dropOverflow fuel q).1.currentPkt = q.currentPkt := by
  induction fuel generalizing q with
  | zero => simp [dropOverflow]
  | succ fuel ih =>
    simp only [dropOverflow]
    split_ifs
    · obtain ⟨hheld, hpending, hcurrent⟩ := ih q.dropTail.1
      obtain ⟨hpending', hcurrent'⟩ := service_dropTail q
      refine ⟨?_, hpending.trans hpending', hcurrent.trans hcurrent'⟩
      rw [← held_dropTail q, ← hheld, tags_append]
      abel
    · simp

theorem store_spec (q : PriorityQueue) (pkt : Packet) :
    (q.store pkt).1.held + tags (q.store pkt).2 = q.held + tags [pkt] ∧
      (q.store pkt).1.pending = q.pending ∧ (q.store pkt).1.currentPkt = q.currentPkt := by
  obtain ⟨hheld, hpending, hcurrent⟩ :=
    dropOverflow_spec (q.enqueue pkt).packets.length (q.enqueue pkt)
  refine ⟨hheld.trans ?_, hpending, hcurrent⟩
  simp only [held, enqueue, tags_insertByKey]
  abel

/-- A packet is taken into service when there is none. -/
theorem beginService_spec (h : q.pending = 0) :
    q.beginService.held = q.held ∧
      (ServesOne q.pending q.currentPkt →
        ServesOne q.beginService.pending q.beginService.currentPkt) := by
  cases hfront : q.packets with
  | nil =>
    have hsame : q.beginService = q := by simp only [beginService, hfront]
    rw [hsame]
    exact ⟨rfl, id⟩
  | cons e rest =>
    simp only [beginService, hfront, held, tagServed, h]
    refine ⟨?_, fun _ => ⟨le_rfl, nofun⟩⟩
    rw [List.map_cons, tags_cons]
    simp [add_comm]

theorem receivePacket_spec (h : ServesOne q.pending q.currentPkt) (pkt : Packet) :
    (q.receivePacket pkt).1.held + tags (q.receivePacket pkt).2 = q.held + tags [pkt] ∧
      ServesOne (q.receivePacket pkt).1.pending (q.receivePacket pkt).1.currentPkt := by
  obtain ⟨hheld, hpending, hcurrent⟩ := store_spec q pkt
  have hserves : ServesOne (q.store pkt).1.pending (q.store pkt).1.currentPkt := by
    rw [hpending, hcurrent]
    exact h
  simp only [receivePacket]
  split_ifs with hempty
  · -- an empty queue serves nothing
    simp only [wasEmpty, Bool.and_eq_true, Option.isNone_iff_eq_none] at hempty
    obtain ⟨hbegin, hserves'⟩ := beginService_spec (hpending.trans (h.idle hempty.1))
    rw [hbegin]
    exact ⟨hheld, hserves' hserves⟩
  · exact ⟨hheld, hserves⟩

theorem completeService_spec (h : ServesOne q.pending q.currentPkt)
    {r : PriorityQueue × Packet} (hr : q.completeService = some r) :
    r.1.held + tags [r.2] = q.held ∧ ServesOne r.1.pending r.1.currentPkt := by
  obtain ⟨r', hfin, rfl⟩ := Option.map_eq_some_iff.mp hr
  simp only [finishService] at hfin
  split at hfin
  · rename_i n pkt hpending hcurrent
    cases hfin
    have hn : n = 0 := by have := h.pending_le; omega
    subst hn
    obtain ⟨hbegin, hserves⟩ := beginService_spec
      (q := { q with
        queuesize := Word.sub 64 q.queuesize pkt.size, currentPkt := none, pending := 0 }) rfl
    refine ⟨?_, hserves ⟨Nat.zero_le 1, fun _ => rfl⟩⟩
    rw [hbegin, tag_applyEcnMark]
    simp [held, tagServed, hpending, hcurrent]
  · cases hfin

/-- `PriorityQueue` in the simulation. -/
def element (bitrate maxsize : Nat) (uninit : Option Packet) (priorities : Nat → Nat) :
    Element where
  σ := PriorityQueue
  new := new bitrate maxsize uninit priorities
  receivePacket := fun _ pkt q => some ⟨(q.receivePacket pkt).1, [], (q.receivePacket pkt).2⟩
  doNextEvent := fun _ q => q.completeService.map fun r => ⟨r.1, [r.2], []⟩
  held := held
  Ok := fun q => ServesOne q.pending q.currentPkt
  ok_new := ⟨Nat.zero_le 1, fun _ => rfl⟩
  held_new := rfl
  receive := fun h hr => by
    cases hr
    rw [tags_nil, zero_add]
    exact receivePacket_spec h _
  next := fun h hr => by
    obtain ⟨r, hcomplete, rfl⟩ := Option.map_eq_some_iff.mp hr
    rw [tags_nil, add_zero]
    exact completeService_spec h hcomplete

end PriorityQueue
end Htsim
end DatacenterNetworking
