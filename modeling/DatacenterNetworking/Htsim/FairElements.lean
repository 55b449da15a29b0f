/-
  DatacenterNetworking.Htsim.FairElements

  The fair queues as elements: `FairQueue`, `StocFairQueue` and `AprxFairQueue`
  neither lose nor make packets, whatever their sizes and whether their counters wrap
  or not.
-/

import DatacenterNetworking.Htsim.AprxFairQueue
import DatacenterNetworking.Htsim.FairQueue
import DatacenterNetworking.Htsim.PriorityQueue

namespace DatacenterNetworking
namespace Htsim

/-! ## `FairQueue` -/

namespace FairQueue

variable {q : FairQueue}

/-- The packets waiting and the one in service. -/
def held (q : FairQueue) : Multiset Tag :=
  tags (q.packets.map Prod.snd) + tagServed q.pending q.currentPkt

theorem held_dropTail (q : FairQueue) : q.dropTail.1.held + tags q.dropTail.2 = q.held := by
  cases hlast : q.packets.getLast? with
  | none => simp [dropTail, hlast]
  | some e =>
    have htail := tags_dropLast_snd hlast
    simp only [dropTail, hlast]
    -- the bookkeeping of the flow has no part in it
    split_ifs
    · simp only [held, ← htail]
      abel
    · simp only [held, ← htail]
      abel

theorem held_dropOverflow (fuel : Nat) (q : FairQueue) :
    (dropOverflow fuel q).1.held + tags (dropOverflow fuel q).2 = q.held := by
  induction fuel generalizing q with
  | zero => simp [dropOverflow]
  | succ fuel ih =>
    simp only [dropOverflow]
    split_ifs
    · rw [← held_dropTail q, ← ih q.dropTail.1, tags_append]
      abel
    · simp

theorem held_store (q : FairQueue) (pkt : Packet) :
    (q.store pkt).1.held + tags (q.store pkt).2 = q.held + tags [pkt] ∧
      (q.store pkt).1.pending = q.pending ∧ (q.store pkt).1.currentPkt = q.currentPkt := by
  refine ⟨(held_dropOverflow _ (q.enqueue pkt)).trans ?_, dropOverflow_service _ (q.enqueue pkt)⟩
  simp only [held, enqueue, tags_insertByKey]
  abel

/-- A packet is taken into service when there is none. -/
theorem held_beginService (h : q.pending = 0) :
    q.beginService.1.held = q.held ∧
      (ServesOne q.pending q.currentPkt →
        ServesOne q.beginService.1.pending q.beginService.1.currentPkt) := by
  cases hfront : q.packets with
  | nil =>
    rw [beginService_of_nil hfront]
    exact ⟨rfl, id⟩
  | cons e rest =>
    rw [beginService_of_cons hfront]
    simp only [held, tagServed, h, hfront]
    refine ⟨?_, fun _ => ⟨le_rfl, fun hone => by cases hone⟩⟩
    rw [List.map_cons, tags_cons]
    simp [add_comm]

theorem held_receivePacket (h : ServesOne q.pending q.currentPkt) (pkt : Packet) :
    (q.receivePacket pkt).1.held + tags (q.store pkt).2 = q.held + tags [pkt] ∧
      ServesOne (q.receivePacket pkt).1.pending (q.receivePacket pkt).1.currentPkt := by
  obtain ⟨hheld, hpending, hcurrent⟩ := held_store q pkt
  have hserves : ServesOne (q.store pkt).1.pending (q.store pkt).1.currentPkt := by
    rw [hpending, hcurrent]
    exact h
  simp only [receivePacket]
  split_ifs with hempty
  · -- an empty queue serves nothing
    simp only [wasEmpty, Bool.and_eq_true, Option.isNone_iff_eq_none] at hempty
    obtain ⟨hbegin, hserves'⟩ := held_beginService (hpending.trans (h.idle hempty.1))
    rw [hbegin]
    exact ⟨hheld, hserves' hserves⟩
  · exact ⟨hheld, hserves⟩

theorem held_finishService (h : ServesOne q.pending q.currentPkt) {r : FairQueue × Packet}
    (hr : q.finishService = some r) :
    r.1.beginService.1.held + tags [r.2] = q.held ∧
      ServesOne r.1.beginService.1.pending r.1.beginService.1.currentPkt := by
  unfold finishService at hr
  split at hr
  · rename_i n pkt hpending hcurrent
    cases hr
    have hn : n = 0 := by have := h.pending_le; omega
    subst hn
    obtain ⟨hbegin, hserves⟩ := held_beginService
      (q := { q.forgetServed pkt.flow with
        queuesize := Word.sub 64 q.queuesize pkt.size, currentPkt := none, pending := 0 }) rfl
    refine ⟨?_, hserves ⟨Nat.zero_le 1, fun _ => rfl⟩⟩
    rw [hbegin, tag_applyEcnMark]
    simp [held, tagServed, hpending, hcurrent, (forgetServed_spec pkt.flow).1]
  · cases hr

/-- `FairQueue` in the simulation. -/
def element (bitrate maxsize : Nat) (uninit : Option Packet) : Element where
  σ := FairQueue
  new := new bitrate maxsize uninit
  receivePacket := fun _ pkt q => some ⟨(q.receivePacket pkt).1, [], (q.store pkt).2⟩
  doNextEvent := fun _ q => q.finishService.map fun r => ⟨r.1.beginService.1, [r.2], []⟩
  held := held
  Ok := fun q => ServesOne q.pending q.currentPkt
  ok_new := ⟨Nat.zero_le 1, fun _ => rfl⟩
  held_new := rfl
  receive := fun h hr => by
    cases hr
    rw [tags_nil, zero_add]
    exact held_receivePacket h _
  next := fun h hr => by
    obtain ⟨r, hfin, rfl⟩ := Option.map_eq_some_iff.mp hr
    rw [tags_nil, add_zero]
    exact held_finishService h hfin

end FairQueue

/-! ## FIFO queues by number -/

/-- One of the FIFO queues gets a packet. -/
theorem sum_tags_cons {α : Type} (tag : α → Packet) {n k : Nat} (hk : k < n)
    (packets : Nat → List α) (e : α) :
    ∑ i ∈ Finset.range n, tags ((Function.update packets k (e :: packets k) i).map tag) =
      ∑ i ∈ Finset.range n, tags ((packets i).map tag) + tags [tag e] := by
  have hsum := sum_update hk (fun l : List α => tags (l.map tag)) packets (e :: packets k)
  rw [List.map_cons, tags_cons, ← add_assoc] at hsum
  exact add_right_cancel hsum

/-- One of them gives its oldest packet away. -/
theorem sum_tags_dropLast {α : Type} (tag : α → Packet) {n k : Nat} (hk : k < n)
    {packets : Nat → List α} {e : α} (he : (packets k).getLast? = some e) :
    ∑ i ∈ Finset.range n, tags ((Function.update packets k (packets k).dropLast i).map tag) +
        tags [tag e] =
      ∑ i ∈ Finset.range n, tags ((packets i).map tag) := by
  have hlast : tags ((packets k).map tag) =
      tags ((packets k).dropLast.map tag) + tags [tag e] := by
    obtain ⟨init, hinit⟩ := List.getLast?_eq_some_iff.mp he
    rw [hinit, List.dropLast_concat, List.map_append, tags_append]
    rfl
  have hsum := sum_update hk (fun l : List α => tags (l.map tag)) packets (packets k).dropLast
  rw [hlast, ← add_assoc, add_right_comm] at hsum
  exact add_right_cancel hsum

/-! ## `StocFairQueue` -/

namespace StocFairQueue

variable {q q' : StocFairQueue} {fuel : Nat}

/-- All packets are in one of the FIFO queues. -/
structure Housed (q : StocFairQueue) : Prop where
  nQueue_pos : 1 ≤ q.nQueue
  beyond : ∀ i, q.nQueue ≤ i → q.packets i = []

/-- The packets of the FIFO queues. -/
def held (q : StocFairQueue) : Multiset Tag :=
  ∑ i ∈ Finset.range q.nQueue, tags ((q.packets i).map id)

/-- What is held depends on the FIFO queues only. -/
theorem held_congr (h : q'.packets = q.packets ∧ q'.nQueue = q.nQueue) :
    q'.held = q.held ∧ (q.Housed → q'.Housed) := by
  obtain ⟨hpackets, hn⟩ := h
  refine ⟨?_, fun hq => ⟨?_, fun i hi => ?_⟩⟩
  · rw [held, held, hpackets, hn]
  · rw [hn]
    exact hq.nQueue_pos
  · rw [hn] at hi
    rw [hpackets]
    exact hq.beyond i hi

theorem held_store (h : q.Housed) (pkt : Packet) :
    (q.store pkt).held = q.held + tags [pkt] ∧ (q.store pkt).Housed := by
  have hlt : q.queueOf pkt < q.nQueue := Nat.mod_lt _ h.nQueue_pos
  obtain ⟨-, -, hn, -⟩ := @store_fields q pkt
  refine ⟨?_, ?_, fun i hi => ?_⟩
  · rw [held, held, hn, packets_store]
    exact sum_tags_cons id hlt q.packets pkt
  · rw [hn]
    exact h.nQueue_pos
  · rw [hn] at hi
    rw [packets_store, Function.update_of_ne (by omega)]
    exact h.beyond i hi

theorem held_receivePacket (h : q.Housed) {pkt : Packet}
    (hr : q.receivePacket fuel pkt = some q') :
    q'.held + tags (if q.maxsize < Word.add 64 q.queuesize pkt.size then [pkt] else []) =
        q.held + tags [pkt] ∧ q'.Housed := by
  obtain ⟨hstore, hhoused⟩ := held_store h pkt
  simp only [receivePacket] at hr
  split_ifs at hr ⊢ with hfull hempty
  · cases hr
    exact ⟨rfl, h⟩
  · obtain ⟨hheld, hkeep⟩ := held_congr (beginService_packets hr)
    rw [tags_nil, add_zero, hheld]
    exact ⟨hstore, hkeep hhoused⟩
  · cases hr
    rw [tags_nil, add_zero]
    exact ⟨hstore, hhoused⟩

theorem held_finishService (h : q.Housed) {r : StocFairQueue × Nat × Packet}
    (hr : q.finishService = some r) : r.1.held + tags [r.2.2] = q.held ∧ r.1.Housed := by
  simp only [finishService] at hr
  split_ifs at hr
  split at hr
  · cases hr
  · rename_i queue rest hactive
    split at hr
    · cases hr
    · rename_i pkt hlast
      cases hr
      -- a FIFO queue with a packet is one of those there are
      have hlt : queue < q.nQueue := by
        by_contra hge
        rw [h.beyond queue (not_lt.mp hge)] at hlast
        cases hlast
      obtain ⟨hpackets, -, -, hn, -⟩ := deactivate_fields (q.dequeue queue pkt) queue
      obtain ⟨hheld, hkeep⟩ := held_congr ⟨hpackets, hn⟩
      rw [hheld, tag_applyEcnMark]
      refine ⟨sum_tags_dropLast id hlt hlast, hkeep ⟨h.nQueue_pos, fun i hi => ?_⟩⟩
      show Function.update q.packets queue _ i = []
      have hi' : q.nQueue ≤ i := hi
      rw [Function.update_of_ne (by omega)]
      exact h.beyond i hi'

theorem held_completeService (h : q.Housed) {r : StocFairQueue × List (Nat × Packet)}
    (hr : q.completeService fuel = some r) :
    r.1.held + tags (r.2.map Prod.snd) = q.held ∧ r.1.Housed := by
  obtain ⟨r₁, hfin, hr⟩ := Option.bind_eq_some_iff.mp hr
  obtain ⟨q', hbegin, rfl⟩ := Option.map_eq_some_iff.mp hr
  obtain ⟨hfinish, hhoused⟩ := held_finishService h hfin
  obtain ⟨hheld, hkeep⟩ := held_congr (beginService_packets hbegin)
  rw [hheld]
  exact ⟨hfinish, hkeep hhoused⟩

/-- `StocFairQueue` in the simulation. -/
def element (fuel bitrate maxsize nQueue quantum : Nat) (hpos : 1 ≤ nQueue) : Element where
  σ := StocFairQueue
  new := new bitrate maxsize nQueue quantum
  receivePacket := fun _ pkt q =>
    (q.receivePacket fuel pkt).map fun q' =>
      ⟨q', [], if q.maxsize < Word.add 64 q.queuesize pkt.size then [pkt] else []⟩
  doNextEvent := fun _ q =>
    (q.completeService fuel).map fun r => ⟨r.1, r.2.map Prod.snd, []⟩
  held := held
  Ok := Housed
  ok_new := ⟨hpos, fun _ _ => rfl⟩
  held_new := Finset.sum_eq_zero fun _ _ => rfl
  receive := fun h hr => by
    obtain ⟨q', hrecv, rfl⟩ := Option.map_eq_some_iff.mp hr
    rw [tags_nil, zero_add]
    exact held_receivePacket h hrecv
  next := fun h hr => by
    obtain ⟨r, hcomplete, rfl⟩ := Option.map_eq_some_iff.mp hr
    rw [tags_nil, add_zero]
    exact held_completeService h hcomplete

end StocFairQueue

/-! ## `AprxFairQueue` -/

namespace AprxFairQueue

variable {q q' : AprxFairQueue}

/-- All packets are in a FIFO queue with a `uint32_t` for its index. -/
structure Housed (q : AprxFairQueue) : Prop where
  currQ_lt : q.currQ < 2 ^ 32
  beyond : ∀ i, 2 ^ 32 ≤ i → q.packets i = []

/-- The packets of the FIFO queues. -/
def held (q : AprxFairQueue) : Multiset Tag :=
  ∑ i ∈ Finset.range (2 ^ 32), tags ((q.packets i).map Queued.pkt)

theorem held_congr (h : q'.packets = q.packets) : q'.held = q.held := by
  rw [held, held, h]

/-- The search for a packet moves none. -/
theorem skip_housed {fuel : Nat} (h : q.Housed) (hskip : skip fuel q = some q') :
    q'.packets = q.packets ∧ q'.Housed := by
  induction fuel generalizing q with
  | zero => cases hskip
  | succ fuel ih =>
    rw [skip] at hskip
    split_ifs at hskip
    · have hnext : q.nextRound.Housed := by
        refine ⟨?_, h.beyond⟩
        simp only [nextRound]
        split_ifs
        · exact Nat.two_pow_pos 32
        · exact Nat.mod_lt _ (Nat.two_pow_pos 32)
      have hrest := ih hnext hskip
      exact hrest
    · cases hskip
      exact ⟨rfl, h⟩

theorem beginService_housed (h : q.Housed) (hbegin : q.beginService = some q') :
    q'.packets = q.packets ∧ q'.Housed := by
  simp only [beginService] at hbegin
  split_ifs at hbegin
  · obtain ⟨q₁, hskip, rfl⟩ := Option.map_eq_some_iff.mp hbegin
    obtain ⟨hpackets, hhoused⟩ := skip_housed h hskip
    exact ⟨hpackets, ⟨hhoused.currQ_lt, hhoused.beyond⟩⟩
  · cases hbegin
    exact ⟨rfl, h⟩

/-- The sum that may wrap is a `uint32_t` all the same. -/
theorem outQ_lt (h : q.Housed) (flowRound : Nat) : q.outQ flowRound < 2 ^ 32 := by
  have hlt : (q.currQ + (flowRound - q.nRounds)) % 2 ^ 32 < 2 ^ 32 :=
    Nat.mod_lt _ (Nat.two_pow_pos 32)
  simp only [outQ]
  split_ifs
  · exact h.currQ_lt
  · exact (Nat.sub_le _ _).trans_lt hlt
  · exact hlt

theorem held_store (h : q.Housed) (pkt : Packet) :
    (q.store pkt).held = q.held + tags [pkt] ∧ (q.store pkt).Housed := by
  have hlt : q.outQ (q.flowRound pkt.flow) < 2 ^ 32 := outQ_lt h _
  refine ⟨?_, h.currQ_lt, fun i hi => ?_⟩
  · exact sum_tags_cons Queued.pkt hlt q.packets
      { pkt := pkt, round := max q.nRounds (q.flowRound pkt.flow), arrival := q.accepted }
  · show Function.update q.packets _ _ i = []
    rw [Function.update_of_ne (by omega)]
    exact h.beyond i hi

theorem held_receivePacket (h : q.Housed) {pkt : Packet} (hr : q.receivePacket pkt = some q') :
    q'.held + tags (if q.Accepts pkt then [] else [pkt]) = q.held + tags [pkt] ∧ q'.Housed := by
  obtain ⟨hstore, hhoused⟩ := held_store h pkt
  simp only [receivePacket] at hr
  split_ifs at hr ⊢ with hacc hempty
  · obtain ⟨hpackets, hhoused'⟩ := beginService_housed hhoused hr
    rw [tags_nil, add_zero, held_congr hpackets]
    exact ⟨hstore, hhoused'⟩
  · cases hr
    rw [tags_nil, add_zero]
    exact ⟨hstore, hhoused⟩
  · cases hr
    exact ⟨rfl, h⟩

@[simp] theorem tag_roundMark (q : AprxFairQueue) (pkt : Packet) :
    tags [q.roundMark pkt] = tags [pkt] := by
  simp only [roundMark]
  split_ifs
  · rfl
  · rfl

theorem held_completeService (h : q.Housed) {r : AprxFairQueue × Queued × Packet}
    (hr : q.completeService = some r) : r.1.held + tags [r.2.2] = q.held ∧ r.1.Housed := by
  obtain ⟨r₁, hfin, hr⟩ := Option.bind_eq_some_iff.mp hr
  obtain ⟨q', hbegin, rfl⟩ := Option.map_eq_some_iff.mp hr
  simp only [finishService] at hfin
  split_ifs at hfin
  split at hfin
  · cases hfin
  · rename_i e hlast
    cases hfin
    have hhoused : (q.dequeue e.pkt).Housed := by
      refine ⟨h.currQ_lt, fun i hi => ?_⟩
      show Function.update q.packets _ _ i = []
      have hlt := h.currQ_lt
      rw [Function.update_of_ne (by omega)]
      exact h.beyond i hi
    obtain ⟨hpackets, hhoused'⟩ := beginService_housed hhoused hbegin
    rw [held_congr hpackets, tag_applyEcnMark, tag_roundMark]
    exact ⟨sum_tags_dropLast Queued.pkt h.currQ_lt hlast, hhoused'⟩

/-- `AprxFairQueue` in the simulation. -/
def element (bitrate maxsize : Nat) (cfg : AFQcfg) : Element where
  σ := AprxFairQueue
  new := new bitrate maxsize cfg
  receivePacket := fun _ pkt q =>
    (q.receivePacket pkt).map fun q' => ⟨q', [], if q.Accepts pkt then [] else [pkt]⟩
  doNextEvent := fun _ q => q.completeService.map fun r => ⟨r.1, [r.2.2], []⟩
  held := held
  Ok := Housed
  ok_new := ⟨Nat.two_pow_pos 32, fun _ _ => rfl⟩
  held_new := Finset.sum_eq_zero fun _ _ => rfl
  receive := fun h hr => by
    obtain ⟨q', hrecv, rfl⟩ := Option.map_eq_some_iff.mp hr
    rw [tags_nil, zero_add]
    exact held_receivePacket h hrecv
  next := fun h hr => by
    obtain ⟨r, hcomplete, rfl⟩ := Option.map_eq_some_iff.mp hr
    rw [tags_nil, add_zero]
    exact held_completeService h hcomplete

end AprxFairQueue

end Htsim
end DatacenterNetworking
