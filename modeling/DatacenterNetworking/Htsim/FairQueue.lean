/-
  DatacenterNetworking.Htsim.FairQueue

  `FairQueue` (`fairqueue.cpp`) in the mode its constructor sets, `LAZY`: every
  packet gets a finish tag at arrival, the packet with the least tag is served
  next, and the tag of the packet taken into service is the round number.

  The fields that only the mode `PRECISE` reads (`_roundUpdate`,
  `_exactRoundNumber`, `_nActiveFlows`) are left out with that mode, which
  nothing selects.

  `_queuesize`, the tags and `_roundNumber` have 64 bits, the counters of `_nPackets`
  32, and all of them wrap.  With a tag beyond `2 ^ 64` the queue is not fair any more.

  `Wf` is the invariant while no tag and no counter wraps (`RoundsFit`).  For each flow
  the tags of its waiting packets are contiguous: they start at a tag `start`, at most
  the round number, and each exceeds the one before it by the size of its packet.
-/

import DatacenterNetworking.Htsim.Queue
import DatacenterNetworking.Lib.StableInsert
import DatacenterNetworking.Lib.Word
import Mathlib.Data.Prod.Lex

namespace DatacenterNetworking
namespace Htsim

/-- `FairQueue`.  An entry of `packets` is a finish tag with its packet.  `pending` counts
    the completion events registered for this queue. -/
structure FairQueue where
  bitrate : Nat
  maxsize : Nat
  queuesize : Nat
  packets : List (Nat × Packet)
  flowRound : Nat → Option Nat
  nPackets : Nat → Option Nat
  roundNumber : Nat
  currentPkt : Option Packet
  pending : Nat

namespace FairQueue

/-- The constructor.  It leaves `_currentPkt` uninitialised: any value. -/
def new (bitrate maxsize : Nat) (uninit : Option Packet) : FairQueue where
  bitrate := bitrate
  maxsize := maxsize
  queuesize := 0
  packets := []
  flowRound := fun _ => none
  nPackets := fun _ => none
  roundNumber := 0
  currentPkt := uninit
  pending := 0

/-- `CompareFqPackets`: by tag, then by packet id. -/
def comparedBy (e : Nat × Packet) : ℕ ×ₗ ℕ := toLex (e.1, e.2.id)

/-- `FairQueue::beginService`, with the packets it takes into service. -/
def beginService (q : FairQueue) : FairQueue × List Packet :=
  match q.packets with
  | [] => (q, [])
  | (tag, pkt) :: rest =>
      ({ q with
          roundNumber := tag
          currentPkt := some pkt
          packets := rest
          pending := q.pending + 1 }, [pkt])

/-- `_nPackets[flow]` (`operator[]` makes a missing entry 0). -/
def nPacketsOf (q : FairQueue) (flow : Nat) : Nat := (q.nPackets flow).getD 0

/-- One packet of `flow` leaves: the bookkeeping of `completeService`. -/
def forgetServed (q : FairQueue) (flow : Nat) : FairQueue :=
  if q.nPacketsOf flow = 1 then
    { q with
      nPackets := Function.update q.nPackets flow none
      flowRound := Function.update q.flowRound flow none }
  else
    { q with
      nPackets := Function.update q.nPackets flow (some (Word.sub 32 (q.nPacketsOf flow) 1)) }

/-- `FairQueue::completeService` up to its call of `beginService`, with the packet that
    departs.  There is nothing to complete unless a completion event was registered. -/
def finishService (q : FairQueue) : Option (FairQueue × Packet) :=
  match q.pending, q.currentPkt with
  | n + 1, some pkt =>
      let q' := q.forgetServed pkt.flow
      some ({ q' with
          queuesize := Word.sub 64 q.queuesize pkt.size
          currentPkt := none
          pending := n }, applyEcnMark q.bitrate q.queuesize pkt)
  | _, _ => none

/-- `FairQueue::completeService`, with the packets it takes into service. -/
def completeService (q : FairQueue) : Option (FairQueue × List Packet) :=
  q.finishService.map fun r => r.1.beginService

/-- The round that the finish tag of an arriving packet is counted from. -/
def baseRound (q : FairQueue) (pkt : Packet) : Nat :=
  match q.flowRound pkt.flow with
  | none => q.roundNumber
  | some r => if q.roundNumber < r then r else q.roundNumber

/-- The finish tag of an arriving packet. -/
def finishRound (q : FairQueue) (pkt : Packet) : Nat := Word.add 64 (q.baseRound pkt) pkt.size

/-- `FairQueue::receivePacket` up to the overflow loop. -/
def enqueue (q : FairQueue) (pkt : Packet) : FairQueue :=
  { q with
    nPackets := Function.update q.nPackets pkt.flow
      (some (Word.add 32 (q.nPacketsOf pkt.flow) 1))
    flowRound := Function.update q.flowRound pkt.flow (some (q.finishRound pkt))
    packets := insertByKey comparedBy (q.finishRound pkt, pkt) q.packets
    queuesize := Word.add 64 q.queuesize pkt.size }

/-- Body of the overflow loop: drop the packet at the end.  With no packet stored the code
    takes `prev` of an empty set, which `overflowing_ne_nil` rules out; the loop ends here. -/
def dropTail (q : FairQueue) : FairQueue × List Packet :=
  match q.packets.getLast? with
  | none => (q, [])
  | some (_, p) =>
      let q' := { q with
        packets := q.packets.dropLast, queuesize := Word.sub 64 q.queuesize p.size }
      -- the next packet of the flow gets the tag that the dropped one had
      if q.nPacketsOf p.flow = 1 then
        ({ q' with
            flowRound := Function.update q.flowRound p.flow none
            nPackets := Function.update q.nPackets p.flow none }, [p])
      else
        ({ q' with
            flowRound := Function.update q.flowRound p.flow
              (some (Word.sub 64 ((q.flowRound p.flow).getD 0) p.size))
            nPackets := Function.update q.nPackets p.flow
              (some (Word.sub 32 (q.nPacketsOf p.flow) 1)) }, [p])

/-- The overflow loop; each round removes one packet, so `fuel` is the number stored. -/
def dropOverflow : Nat → FairQueue → FairQueue × List Packet
  | 0, q => (q, [])
  | fuel + 1, q =>
      if q.maxsize < q.queuesize then
        let r := dropOverflow fuel q.dropTail.1
        (r.1, q.dropTail.2 ++ r.2)
      else (q, [])

/-- `FairQueue::receivePacket` up to its call of `beginService`, with the packets dropped. -/
def store (q : FairQueue) (pkt : Packet) : FairQueue × List Packet :=
  dropOverflow (q.enqueue pkt).packets.length (q.enqueue pkt)

/-- `queueWasEmpty`. -/
def wasEmpty (q : FairQueue) : Bool := q.currentPkt.isNone && q.packets.isEmpty

/-- `FairQueue::receivePacket`, with the packets it takes into service. -/
def receivePacket (q : FairQueue) (pkt : Packet) : FairQueue × List Packet :=
  if q.wasEmpty then (q.store pkt).1.beginService else ((q.store pkt).1, [])

/-! ## The queue as a system -/

/-- What drives the queue: a packet arrives, or a completion event fires. -/
inductive Act where
  | arrive (pkt : Packet)
  | complete

/-- The queue with the packets taken into service so far, in order. -/
structure State where
  q : FairQueue
  taken : List Packet

/-- One handler call. -/
def handle (q : FairQueue) : Act → Option (FairQueue × List Packet)
  | .arrive pkt => some (q.receivePacket pkt)
  | .complete => q.completeService

/-- The queue under any sequence of arrivals and completions. -/
def system : Lts State Act where
  step s a := (s.q.handle a).map fun r => { q := r.1, taken := s.taken ++ r.2 }

/-- The system as constructed. -/
def init (bitrate maxsize : Nat) (uninit : Option Packet) : State :=
  { q := new bitrate maxsize uninit, taken := [] }

/-! ## Contiguous tags -/

/-- Each tag exceeds the one before it, the first one `s`, by the size of its packet. -/
def Contiguous : Nat → List (Nat × Packet) → Prop
  | _, [] => True
  | s, e :: l => e.1 = s + e.2.size ∧ Contiguous e.1 l

/-- The last tag, `s` if there is none. -/
def finishTag : Nat → List (Nat × Packet) → Nat
  | s, [] => s
  | _, e :: l => finishTag e.1 l

@[simp] theorem finishTag_append_singleton (s : Nat) (l : List (Nat × Packet))
    (e : Nat × Packet) : finishTag s (l ++ [e]) = e.1 := by
  induction l generalizing s with
  | nil => rfl
  | cons x l ih => exact ih x.1

theorem contiguous_append_singleton {s : Nat} {l : List (Nat × Packet)} {e : Nat × Packet} :
    Contiguous s (l ++ [e]) ↔ Contiguous s l ∧ e.1 = finishTag s l + e.2.size := by
  induction l generalizing s with
  | nil => simp [Contiguous, finishTag]
  | cons x l ih => simp only [List.cons_append, Contiguous, ih, finishTag, and_assoc]

/-- Contiguous tags only grow. -/
theorem Contiguous.le_finishTag {s : Nat} {l : List (Nat × Packet)} (h : Contiguous s l) :
    s ≤ finishTag s l ∧ ∀ e ∈ l, e.1 ≤ finishTag s l := by
  induction l generalizing s with
  | nil => exact ⟨le_rfl, fun e he => absurd he List.not_mem_nil⟩
  | cons x l ih =>
    obtain ⟨hx, hl⟩ := h
    obtain ⟨hle, hall⟩ := ih hl
    refine ⟨?_, fun e he => ?_⟩
    · show s ≤ finishTag x.1 l
      omega
    · rcases List.mem_cons.mp he with rfl | he
      · exact hle
      · exact hall e he

/-! ## The invariant -/

/-- The waiting packets of flow `f`, with their tags. -/
def waiting (q : FairQueue) (f : Nat) : List (Nat × Packet) :=
  q.packets.filter fun e => e.2.flow = f

/-- The tag at which the first waiting packet of `f` starts; for a flow with nothing
    waiting, the round number, where its next packet would start. -/
def start (q : FairQueue) (f : Nat) : Nat :=
  match q.waiting f with
  | [] => q.roundNumber
  | e :: _ => e.1 - e.2.size

/-- Packets of `f` in service: one at most, and none while no completion is registered
    (`_currentPkt` may then hold its uninitialised value). -/
def inService (q : FairQueue) (f : Nat) : Nat :=
  if q.pending = 0 then 0
  else match q.currentPkt with
    | some pkt => if pkt.flow = f then 1 else 0
    | none => 0

/-- Packets of `f` in the queue, the one in service included. -/
def count (q : FairQueue) (f : Nat) : Nat := (q.waiting f).length + q.inService f

/-- What `_queuesize`, `_nPackets` and `_flowRound` hold are words. -/
structure Words (q : FairQueue) : Prop where
  queuesize : q.queuesize < 2 ^ 64
  nPackets : ∀ f n, q.nPackets f = some n → n < 2 ^ 32
  flowRound : ∀ f r, q.flowRound f = some r → r < 2 ^ 64

/-- Neither the tag of an arriving packet nor the counter of its flow wraps. -/
structure RoundFits (q : FairQueue) (pkt : Packet) : Prop where
  tag : q.baseRound pkt + pkt.size < 2 ^ 64
  count : q.nPacketsOf pkt.flow + 1 < 2 ^ 32

/-- The invariant of the queue. -/
structure Wf (q : FairQueue) : Prop where
  sorted : q.packets.Pairwise fun a b => comparedBy a ≤ comparedBy b
  size_pos : ∀ e ∈ q.packets, 1 ≤ e.2.size
  ge_round : ∀ e ∈ q.packets, q.roundNumber ≤ e.1
  contiguous : ∀ f, Contiguous (q.start f) (q.waiting f)
  start_le : ∀ f, q.start f ≤ q.roundNumber
  nPackets : ∀ f, q.nPackets f = if q.count f = 0 then none else some (q.count f)
  flowRound : ∀ f, q.flowRound f =
    if q.count f = 0 then none else some (finishTag (q.start f) (q.waiting f))
  served_start : ∀ f, q.inService f ≠ 0 → q.start f = q.roundNumber
  service : q.pending = 0 ∨ (q.pending = 1 ∧ q.currentPkt.isSome = true)
  words : Words q

theorem waiting_congr {q q' : FairQueue} (h : q'.packets = q.packets) (f : Nat) :
    q'.waiting f = q.waiting f := congrArg (List.filter _) h

/-- The packets of one flow when `q'` has the packets of `q` but the last. -/
theorem waiting_of_concat {q q' : FairQueue} {e : Nat × Packet}
    (h : q.packets = q'.packets ++ [e]) (f : Nat) :
    q.waiting f = q'.waiting f ++ if e.2.flow = f then [e] else [] := by
  simp only [waiting]
  rw [h, List.filter_append, List.filter_singleton]
  by_cases hf : e.2.flow = f
  · simp only [hf, decide_true, if_true, cond_true]
  · simp only [hf, decide_false, if_false, cond_false]

/-- The packets of one flow when `q'` has the packets of `q` but the first. -/
theorem waiting_of_cons {q q' : FairQueue} {e : Nat × Packet}
    (h : q.packets = e :: q'.packets) (f : Nat) :
    q.waiting f = (if e.2.flow = f then [e] else []) ++ q'.waiting f := by
  simp only [waiting]
  rw [h, List.filter_cons]
  by_cases hf : e.2.flow = f
  · simp only [hf, decide_true, if_true, List.singleton_append]
  · simp only [hf, decide_false, Bool.false_eq_true, if_false, List.nil_append]

/-- A flow with no packet in the queue has none waiting and none in service. -/
theorem count_eq_zero {q : FairQueue} {f : Nat} :
    q.count f = 0 ↔ q.waiting f = [] ∧ q.inService f = 0 := by
  rw [← List.length_eq_zero_iff]
  exact Nat.add_eq_zero_iff

theorem start_of_waiting_nil {q : FairQueue} {f : Nat} (h : q.waiting f = []) :
    q.start f = q.roundNumber := by
  simp only [start]
  rw [h]

theorem start_of_waiting_cons {q : FairQueue} {f : Nat} {e : Nat × Packet}
    {l : List (Nat × Packet)} (h : q.waiting f = e :: l) : q.start f = e.1 - e.2.size := by
  simp only [start]
  rw [h]

/-- A counter that is missing from `_nPackets` is zero. -/
theorem nPacketsOf_eq {q : FairQueue} {f : Nat}
    (h : q.nPackets f = if q.count f = 0 then none else some (q.count f)) :
    q.nPacketsOf f = q.count f := by
  rw [FairQueue.nPacketsOf, h]
  split_ifs with h0
  · exact h0.symm
  · rfl

theorem Wf.nPacketsOf {q : FairQueue} (h : Wf q) (f : Nat) : q.nPacketsOf f = q.count f :=
  nPacketsOf_eq (h.nPackets f)

/-- A counter that is right is a word. -/
theorem Words.count_lt {q : FairQueue} (hw : Words q) {f : Nat}
    (h : q.nPackets f = if q.count f = 0 then none else some (q.count f)) :
    q.count f < 2 ^ 32 := by
  split_ifs at h with h0
  · rw [h0]
    exact Nat.two_pow_pos 32
  · exact hw.nPackets f _ h

/-- A flow loses a packet: its counter goes down, or goes with the last one. -/
theorem nPackets_remove {q q' : FairQueue} {flow : Nat} (hw : Words q)
    (h : ∀ f, q.nPackets f = if q.count f = 0 then none else some (q.count f))
    (hcount : ∀ f, q.count f = q'.count f + if flow = f then 1 else 0) (f : Nat) :
    Function.update q.nPackets flow
        (if q.nPacketsOf flow = 1 then none
          else some (Word.sub 32 (q.nPacketsOf flow) 1)) f =
      if q'.count f = 0 then none else some (q'.count f) := by
  have hlt := hw.count_lt (h flow)
  have hself := hcount flow
  rw [if_pos rfl] at hself
  rw [hself] at hlt
  rw [nPacketsOf_eq (h flow), hself, Word.sub_of_le (Nat.le_add_left 1 _) hlt]
  by_cases hf : flow = f
  · subst hf
    rw [Function.update_self]
    simp only [Nat.add_eq_right, Nat.add_sub_cancel]
  · rw [Function.update_of_ne (Ne.symm hf), h f, hcount f, if_neg hf, Nat.add_zero]

theorem start_congr {q q' : FairQueue} {f : Nat} (hw : q'.waiting f = q.waiting f)
    (hr : q'.roundNumber = q.roundNumber) : q'.start f = q.start f := by
  simp only [start]
  rw [hw, hr]

/-- With packets of `f` waiting, the first one ends at most one packet after the round. -/
theorem Wf.head {q : FairQueue} (h : Wf q) {f : Nat} {e : Nat × Packet}
    {l : List (Nat × Packet)} (hw : q.waiting f = e :: l) :
    e ∈ q.packets ∧ e.2.flow = f ∧ e.1 = q.start f + e.2.size ∧ Contiguous e.1 l := by
  have hmem : e ∈ q.waiting f := by
    rw [hw]
    exact List.mem_cons_self
  have hin := List.mem_filter.mp hmem
  have hc := h.contiguous f
  rw [hw] at hc
  exact ⟨hin.1, of_decide_eq_true hin.2, hc.1, hc.2⟩

/-- The start tag of a flow lags the round number by at most one packet of that flow. -/
theorem Wf.start_bounds {q : FairQueue} (h : Wf q) {f L : Nat}
    (hL : ∀ e ∈ q.packets, e.2.flow = f → e.2.size ≤ L) :
    q.roundNumber ≤ q.start f + L ∧ q.start f ≤ q.roundNumber := by
  refine ⟨?_, h.start_le f⟩
  cases hw : q.waiting f with
  | nil =>
    rw [start_of_waiting_nil hw]
    exact Nat.le_add_right _ _
  | cons e l =>
    obtain ⟨hin, hflow, htag, -⟩ := h.head hw
    have hround := h.ge_round e hin
    have hsize := hL e hin hflow
    omega

theorem words_new (bitrate maxsize : Nat) (uninit : Option Packet) :
    Words (new bitrate maxsize uninit) where
  queuesize := Nat.two_pow_pos 64
  nPackets := fun _ _ h => by cases h
  flowRound := fun _ _ h => by cases h

/-- One entry of a map of words is set. -/
theorem update_lt {m : Nat → Option Nat} {n k : Nat} {v : Option Nat}
    (h : ∀ f x, m f = some x → x < n) (hv : ∀ x, v = some x → x < n) (f x : Nat)
    (hx : Function.update m k v f = some x) : x < n := by
  by_cases hf : f = k
  · subst hf
    rw [Function.update_self] at hx
    exact hv x hx
  · rw [Function.update_of_ne hf] at hx
    exact h f x hx

theorem wf_new (bitrate maxsize : Nat) (uninit : Option Packet) :
    Wf (new bitrate maxsize uninit) where
  sorted := List.Pairwise.nil
  size_pos := fun _ he => absurd he List.not_mem_nil
  ge_round := fun _ he => absurd he List.not_mem_nil
  contiguous := fun _ => trivial
  start_le := fun _ => le_rfl
  nPackets := fun _ => rfl
  flowRound := fun _ => rfl
  served_start := fun _ h => absurd rfl h
  service := Or.inl rfl
  words := words_new bitrate maxsize uninit

/-! ## Arrival -/

section Enqueue

variable {q : FairQueue} {pkt : Packet}

theorem inService_enqueue (f : Nat) : (q.enqueue pkt).inService f = q.inService f := rfl

/-- An arrival adds one to the count of its flow. -/
theorem count_enqueue (f : Nat) :
    (q.enqueue pkt).count f = q.count f + if pkt.flow = f then 1 else 0 := by
  have hperm := ((@perm_insertByKey _ _ _ comparedBy (q.finishRound pkt, pkt) q.packets).filter
    fun e => e.2.flow = f).length_eq
  have hwait : ((q.enqueue pkt).waiting f).length =
      (q.waiting f).length + if pkt.flow = f then 1 else 0 := by
    refine hperm.trans ?_
    by_cases hf : pkt.flow = f
    · rw [List.filter_cons_of_pos (by simpa using hf), if_pos hf]
      rfl
    · rw [List.filter_cons_of_neg (by simpa using hf), if_neg hf]
      rfl
  simp only [count, hwait, inService_enqueue]
  omega

/-- The counter of the flow goes up, or starts at 1. -/
theorem nPackets_enqueue
    (h : ∀ f, q.nPackets f = if q.count f = 0 then none else some (q.count f))
    (hfits : q.nPacketsOf pkt.flow + 1 < 2 ^ 32) (f : Nat) :
    (q.enqueue pkt).nPackets f =
      if (q.enqueue pkt).count f = 0 then none else some ((q.enqueue pkt).count f) := by
  rw [count_enqueue]
  show Function.update q.nPackets pkt.flow _ f = _
  by_cases hf : pkt.flow = f
  · subst hf
    rw [Function.update_self, if_pos rfl, if_neg (Nat.succ_ne_zero _), Word.add_of_lt hfits,
      nPacketsOf_eq (h pkt.flow)]
  · rw [Function.update_of_ne (Ne.symm hf), if_neg hf, Nat.add_zero]
    exact h f

theorem words_enqueue (h : Words q) (pkt : Packet) : Words (q.enqueue pkt) where
  queuesize := Word.add_lt
  nPackets := update_lt h.nPackets fun _ hx => Option.some.inj hx ▸ Word.add_lt
  flowRound := update_lt h.flowRound fun _ hx => Option.some.inj hx ▸ Word.add_lt

theorem RoundFits.finishRound_eq (h : q.RoundFits pkt) :
    q.finishRound pkt = q.baseRound pkt + pkt.size := Word.add_of_lt h.tag

/-- A tag is counted from the round number on. -/
theorem baseRound_ge (q : FairQueue) (pkt : Packet) :
    q.roundNumber ≤ q.baseRound pkt ∧
      ∀ r, q.flowRound pkt.flow = some r → r ≤ q.baseRound pkt := by
  simp only [baseRound]
  cases hr : q.flowRound pkt.flow with
  | none => exact ⟨le_rfl, fun r hr' => by cases hr'⟩
  | some r =>
    show _ ≤ (if q.roundNumber < r then _ else _) ∧
      ∀ r', some r = some r' → r' ≤ (if q.roundNumber < r then _ else _)
    split_ifs with hlt
    · exact ⟨hlt.le, fun r' hr' => (Option.some.inj hr').ge⟩
    · exact ⟨le_rfl, fun r' hr' => Option.some.inj hr' ▸ not_lt.mp hlt⟩

/-- The new packet's tag exceeds the last one of its flow by its size. -/
theorem Wf.finishRound_eq (h : Wf q) (hfits : q.RoundFits pkt) :
    q.finishRound pkt = finishTag (q.start pkt.flow) (q.waiting pkt.flow) + pkt.size := by
  have hfr := h.flowRound pkt.flow
  have hle := (h.contiguous pkt.flow).le_finishTag.1
  rw [hfits.finishRound_eq, Nat.add_right_cancel_iff]
  simp only [baseRound]
  by_cases h0 : q.count pkt.flow = 0
  · -- an idle flow: nothing waits, so it starts at the round number
    have hw : q.waiting pkt.flow = [] := (count_eq_zero.mp h0).1
    rw [hfr, if_pos h0, hw, start_of_waiting_nil hw]
    rfl
  · rw [hfr, if_neg h0]
    show (if q.roundNumber < _ then _ else _) = _
    split_ifs with hlt
    · rfl
    · -- the last tag is not beyond the round number, so it equals it
      have hge : q.roundNumber ≤ finishTag (q.start pkt.flow) (q.waiting pkt.flow) := by
        cases hw : q.waiting pkt.flow with
        | nil => rw [start_of_waiting_nil hw]; exact le_rfl
        | cons e l =>
          obtain ⟨hin, -, -, hl⟩ := h.head hw
          exact (h.ge_round e hin).trans hl.le_finishTag.1
      omega

theorem Wf.waiting_enqueue_self (h : Wf q) (hfits : q.RoundFits pkt) (hpos : 1 ≤ pkt.size) :
    (q.enqueue pkt).waiting pkt.flow = q.waiting pkt.flow ++ [(q.finishRound pkt, pkt)] := by
  apply filter_insertByKey_of_le
  · exact decide_eq_true rfl
  · exact h.sorted
  · intro y hy hyf
    have hmem : y ∈ q.waiting pkt.flow := List.mem_filter.mpr ⟨hy, hyf⟩
    have hle := (h.contiguous pkt.flow).le_finishTag.2 y hmem
    have htag := h.finishRound_eq hfits
    -- the tag alone decides the comparison
    exact (Prod.Lex.toLex_le_toLex).mpr (Or.inl (by show y.1 < q.finishRound pkt; omega))

theorem waiting_enqueue_ne {f : Nat} (hf : pkt.flow ≠ f) :
    (q.enqueue pkt).waiting f = q.waiting f := by
  apply filter_insertByKey_of_not
  exact decide_eq_false hf

/-- An arrival moves no start tag. -/
theorem Wf.start_enqueue (h : Wf q) (hfits : q.RoundFits pkt) (hpos : 1 ≤ pkt.size) (f : Nat) :
    (q.enqueue pkt).start f = q.start f := by
  by_cases hf : pkt.flow = f
  · subst hf
    have hw := h.waiting_enqueue_self hfits hpos
    cases hq : q.waiting pkt.flow with
    | nil =>
      rw [hq, List.nil_append] at hw
      have htag := h.finishRound_eq hfits
      rw [hq] at htag
      rw [start_of_waiting_cons hw]
      show q.finishRound pkt - pkt.size = _
      rw [htag]
      exact Nat.add_sub_cancel _ _
    | cons e l =>
      rw [hq, List.cons_append] at hw
      rw [start_of_waiting_cons hw, start_of_waiting_cons hq]
  · exact start_congr (waiting_enqueue_ne hf) rfl

theorem wf_enqueue (h : Wf q) (hfits : q.RoundFits pkt) (hpos : 1 ≤ pkt.size) :
    Wf (q.enqueue pkt) := by
  have hstart := h.start_enqueue hfits hpos
  have hself := h.waiting_enqueue_self hfits hpos
  have hround : q.roundNumber ≤ q.finishRound pkt := by
    rw [hfits.finishRound_eq]
    exact (baseRound_ge q pkt).1.trans (Nat.le_add_right _ _)
  refine
    { sorted := pairwise_insertByKey h.sorted
      size_pos := ?_
      ge_round := ?_
      contiguous := ?_
      start_le := fun f => by rw [hstart f]; exact h.start_le f
      nPackets := nPackets_enqueue h.nPackets hfits.count
      flowRound := ?_
      served_start := fun f hf => by rw [hstart f]; exact h.served_start f hf
      service := h.service
      words := words_enqueue h.words pkt }
  · intro e he
    rcases mem_insertByKey.mp he with rfl | he
    · exact hpos
    · exact h.size_pos e he
  · intro e he
    rcases mem_insertByKey.mp he with rfl | he
    · exact hround
    · exact h.ge_round e he
  · -- the new tag continues those of its flow
    intro f
    rw [hstart f]
    by_cases hf : pkt.flow = f
    · subst hf
      rw [hself, contiguous_append_singleton]
      exact ⟨h.contiguous _, h.finishRound_eq hfits⟩
    · rw [waiting_enqueue_ne hf]
      exact h.contiguous f
  · -- and it is the last one
    intro f
    rw [count_enqueue]
    show Function.update q.flowRound pkt.flow _ f = _
    by_cases hf : pkt.flow = f
    · subst hf
      rw [Function.update_self, if_pos rfl, if_neg (Nat.succ_ne_zero _), hself,
        finishTag_append_singleton]
    · rw [Function.update_of_ne (Ne.symm hf), if_neg hf, Nat.add_zero, hstart f,
        waiting_enqueue_ne hf]
      exact h.flowRound f

end Enqueue

/-! ## Tail drops -/

section DropTail

variable {q : FairQueue}

theorem dropTail_of_nil (h : q.packets = []) : q.dropTail = (q, []) := by
  simp only [dropTail]
  rw [h]
  rfl

/-- A tail drop removes the last packet and leaves round number and service alone. -/
theorem dropTail_of_concat {l : List (Nat × Packet)} {tag : Nat} {p : Packet}
    (h : q.packets = l ++ [(tag, p)]) :
    q.dropTail.1.packets = l ∧ q.dropTail.1.roundNumber = q.roundNumber ∧
      q.dropTail.1.pending = q.pending ∧ q.dropTail.1.currentPkt = q.currentPkt ∧
      q.dropTail.1.nPackets = Function.update q.nPackets p.flow
        (if q.nPacketsOf p.flow = 1 then none
          else some (Word.sub 32 (q.nPacketsOf p.flow) 1)) ∧
      q.dropTail.1.flowRound = Function.update q.flowRound p.flow
        (if q.nPacketsOf p.flow = 1 then none
          else some (Word.sub 64 ((q.flowRound p.flow).getD 0) p.size)) := by
  simp only [dropTail]
  rw [h, List.getLast?_concat, List.dropLast_concat]
  by_cases h1 : q.nPacketsOf p.flow = 1
  · simp only [h1, if_true, and_self]
  · simp only [h1, if_false, and_self]

/-- The packet in service is not in `_packets`, so it is never dropped. -/
theorem dropTail_service (q : FairQueue) :
    q.dropTail.1.pending = q.pending ∧ q.dropTail.1.currentPkt = q.currentPkt := by
  rcases List.eq_nil_or_concat q.packets with hnil | ⟨l, ⟨tag, p⟩, hcat⟩
  · rw [dropTail_of_nil hnil]
    exact ⟨rfl, rfl⟩
  · rw [List.concat_eq_append] at hcat
    obtain ⟨-, -, hp, hc, -, -⟩ := dropTail_of_concat hcat
    exact ⟨hp, hc⟩

theorem dropOverflow_service (fuel : Nat) (q : FairQueue) :
    (dropOverflow fuel q).1.pending = q.pending ∧
      (dropOverflow fuel q).1.currentPkt = q.currentPkt := by
  induction fuel generalizing q with
  | zero => exact ⟨rfl, rfl⟩
  | succ fuel ih =>
    simp only [dropOverflow]
    split_ifs
    · obtain ⟨hpend, hcur⟩ := ih q.dropTail.1
      obtain ⟨hpend', hcur'⟩ := dropTail_service q
      exact ⟨hpend.trans hpend', hcur.trans hcur'⟩
    · exact ⟨rfl, rfl⟩

/-- What a tail drop does to the packets of one flow: the last one may go. -/
theorem waiting_dropTail (f : Nat) :
    ∃ w, q.waiting f = q.dropTail.1.waiting f ++ w := by
  rcases List.eq_nil_or_concat q.packets with hnil | ⟨l, ⟨tag, p⟩, hcat⟩
  · rw [dropTail_of_nil hnil]
    exact ⟨[], (List.append_nil _).symm⟩
  · rw [List.concat_eq_append] at hcat
    rw [← (dropTail_of_concat hcat).1] at hcat
    exact ⟨_, waiting_of_concat hcat f⟩

/-- The start tag of a flow is that of its first packet: cutting the end moves it only
    when nothing is left. -/
theorem start_of_waiting_append {q' : FairQueue} {f : Nat} {w : List (Nat × Packet)}
    (hw : q.waiting f = q'.waiting f ++ w) (hne : q'.waiting f ≠ []) :
    q'.start f = q.start f := by
  cases hw' : q'.waiting f with
  | nil => exact absurd hw' hne
  | cons e l =>
    rw [hw', List.cons_append] at hw
    rw [start_of_waiting_cons hw', start_of_waiting_cons hw]

theorem start_dropTail {f : Nat} (hne : q.dropTail.1.waiting f ≠ []) :
    q.dropTail.1.start f = q.start f := by
  obtain ⟨w, hw⟩ := @waiting_dropTail q f
  exact start_of_waiting_append hw hne

theorem inService_congr {q' : FairQueue} (hp : q'.pending = q.pending)
    (hc : q'.currentPkt = q.currentPkt) (f : Nat) : q'.inService f = q.inService f := by
  simp only [inService]
  rw [hp, hc]

/-- A tail drop takes the last packet from its flow, and nothing from the others. -/
theorem waiting_dropTail_of_concat {l : List (Nat × Packet)} {tag : Nat} {p : Packet}
    (h : q.packets = l ++ [(tag, p)]) (f : Nat) :
    q.waiting f = q.dropTail.1.waiting f ++ if p.flow = f then [(tag, p)] else [] := by
  have hpkts : q.packets = q.dropTail.1.packets ++ [(tag, p)] := by
    rw [(dropTail_of_concat h).1]
    exact h
  exact waiting_of_concat hpkts f

/-- A tail drop takes one from the count of the flow of the last packet. -/
theorem count_dropTail {l : List (Nat × Packet)} {tag : Nat} {p : Packet}
    (h : q.packets = l ++ [(tag, p)]) (f : Nat) :
    q.count f = q.dropTail.1.count f + if p.flow = f then 1 else 0 := by
  obtain ⟨hpend, hcur⟩ := dropTail_service q
  have hserv := inService_congr hpend hcur f
  simp only [count, waiting_dropTail_of_concat h, hserv, List.length_append]
  by_cases hf : p.flow = f
  · rw [if_pos hf, if_pos hf, List.length_singleton]
    omega
  · rw [if_neg hf, if_neg hf]
    rfl

theorem roundNumber_dropTail (q : FairQueue) :
    q.dropTail.1.roundNumber = q.roundNumber := by
  rcases List.eq_nil_or_concat q.packets with hnil | ⟨l, ⟨tag, p⟩, hcat⟩
  · rw [dropTail_of_nil hnil]
  · rw [List.concat_eq_append] at hcat
    exact (dropTail_of_concat hcat).2.1

/-- A flow with a packet left starts where it did: a served flow starts at the round number,
    drained or not. -/
theorem start_dropTail_of_count (h : Wf q) {f : Nat} (hf : q.dropTail.1.count f ≠ 0) :
    q.dropTail.1.start f = q.start f := by
  by_cases hw : q.dropTail.1.waiting f = []
  · obtain ⟨hpend, hcur⟩ := dropTail_service q
    have hserv : q.inService f ≠ 0 := by
      intro hs
      exact hf (count_eq_zero.mpr ⟨hw, (inService_congr hpend hcur f).trans hs⟩)
    rw [start_of_waiting_nil hw, roundNumber_dropTail]
    exact (h.served_start f hserv).symm
  · exact start_dropTail hw

/-- `_flowRound` is decremented by the size, which gives the tag before the dropped one. -/
theorem flowRound_dropTail (h : Wf q) {l : List (Nat × Packet)} {tag : Nat} {p : Packet}
    (hcat : q.packets = l ++ [(tag, p)]) (f : Nat) :
    q.dropTail.1.flowRound f = if q.dropTail.1.count f = 0 then none
      else some (finishTag (q.dropTail.1.start f) (q.dropTail.1.waiting f)) := by
  obtain ⟨-, -, -, -, -, hfr⟩ := dropTail_of_concat hcat
  have hwait := waiting_dropTail_of_concat hcat f
  have hcount := count_dropTail hcat f
  have hround := h.flowRound f
  rw [hfr]
  by_cases hf : p.flow = f
  · subst hf
    rw [if_pos rfl] at hwait hcount
    have hcontig := h.contiguous p.flow
    rw [hwait, contiguous_append_singleton] at hcontig
    have htag : tag = finishTag (q.start p.flow) (q.dropTail.1.waiting p.flow) + p.size :=
      hcontig.2
    rw [if_neg (by omega), hwait, finishTag_append_singleton] at hround
    have hlt : tag < 2 ^ 64 := h.words.flowRound _ _ hround
    have hle : p.size ≤ tag := htag ▸ Nat.le_add_left _ _
    rw [Function.update_self, h.nPacketsOf, hcount, hround, Option.getD_some,
      Word.sub_of_le hle hlt]
    simp only [Nat.add_eq_right]
    by_cases h0 : q.dropTail.1.count p.flow = 0
    · rw [if_pos h0, if_pos h0]
    · rw [if_neg h0, if_neg h0, start_dropTail_of_count h h0, htag, Nat.add_sub_cancel]
  · rw [if_neg hf, List.append_nil] at hwait
    rw [if_neg hf, Nat.add_zero] at hcount
    rw [Function.update_of_ne (Ne.symm hf), hround, hcount, hwait,
      start_congr hwait.symm (roundNumber_dropTail q)]

/-- A missing word or a difference is a word. -/
theorem ite_sub_lt {c : Prop} [Decidable c] {w a b x : Nat}
    (h : (if c then none else some (Word.sub w a b)) = some x) : x < 2 ^ w := by
  split_ifs at h
  exact Option.some.inj h ▸ Word.sub_lt

theorem words_dropTail (h : Words q) : Words q.dropTail.1 := by
  rcases List.eq_nil_or_concat q.packets with hnil | ⟨l, ⟨tag, p⟩, hcat⟩
  · rw [dropTail_of_nil hnil]
    exact h
  rw [List.concat_eq_append] at hcat
  obtain ⟨-, -, -, -, hnp, hfr⟩ := dropTail_of_concat hcat
  refine ⟨?_, ?_, ?_⟩
  · simp only [dropTail]
    rw [hcat, List.getLast?_concat]
    dsimp only
    split_ifs
    · exact Word.sub_lt
    · exact Word.sub_lt
  · rw [hnp]
    exact update_lt h.nPackets fun _ hx => ite_sub_lt hx
  · rw [hfr]
    exact update_lt h.flowRound fun _ hx => ite_sub_lt hx

theorem wf_dropTail (h : Wf q) : Wf q.dropTail.1 := by
  rcases List.eq_nil_or_concat q.packets with hnil | ⟨l, ⟨tag, p⟩, hcat⟩
  · rw [dropTail_of_nil hnil]
    exact h
  rw [List.concat_eq_append] at hcat
  obtain ⟨hpkts, hround, hpend, hcur, hnp, -⟩ := dropTail_of_concat hcat
  have hserv := inService_congr hpend hcur
  have hmem : ∀ e ∈ q.dropTail.1.packets, e ∈ q.packets := by
    intro e he
    rw [hpkts] at he
    rw [hcat]
    exact List.mem_append_left _ he
  refine
    { sorted := ?_
      size_pos := fun e he => h.size_pos e (hmem e he)
      ge_round := fun e he => by rw [hround]; exact h.ge_round e (hmem e he)
      contiguous := ?_
      start_le := ?_
      nPackets := by rw [hnp]; exact nPackets_remove h.words h.nPackets (count_dropTail hcat)
      flowRound := flowRound_dropTail h hcat
      served_start := ?_
      service := by rw [hpend, hcur]; exact h.service
      words := words_dropTail h.words }
  · have hsorted := h.sorted
    rw [hcat, List.pairwise_append] at hsorted
    rw [hpkts]
    exact hsorted.1
  · -- the tags of a flow that still waits lose at most the last one
    intro f
    by_cases hw : q.dropTail.1.waiting f = []
    · rw [hw]
      trivial
    · have hcontig := h.contiguous f
      rw [waiting_dropTail_of_concat hcat] at hcontig
      rw [start_dropTail hw]
      by_cases hf : p.flow = f
      · rw [if_pos hf, contiguous_append_singleton] at hcontig
        exact hcontig.1
      · rw [if_neg hf, List.append_nil] at hcontig
        exact hcontig
  · intro f
    by_cases hw : q.dropTail.1.waiting f = []
    · rw [start_of_waiting_nil hw]
    · rw [start_dropTail hw, hround]
      exact h.start_le f
  · -- the packet in service is not in `_packets`, so it is never dropped
    intro f hf
    have hleft : q.dropTail.1.count f ≠ 0 := fun h0 => hf (count_eq_zero.mp h0).2
    rw [hserv] at hf
    rw [start_dropTail_of_count h hleft, hround]
    exact h.served_start f hf

/-- The overflow loop as a whole: it keeps the invariant, the service and the round
    number, and only cuts the end of what waits. -/
theorem dropOverflow_spec (fuel : Nat) (q : FairQueue) (h : Wf q) :
    Wf (dropOverflow fuel q).1 ∧
      (dropOverflow fuel q).1.pending = q.pending ∧
      (dropOverflow fuel q).1.currentPkt = q.currentPkt ∧
      (∀ f, ∃ w, q.waiting f = (dropOverflow fuel q).1.waiting f ++ w) := by
  induction fuel generalizing q with
  | zero => exact ⟨h, rfl, rfl, fun f => ⟨[], (List.append_nil _).symm⟩⟩
  | succ fuel ih =>
    simp only [dropOverflow]
    by_cases hover : q.maxsize < q.queuesize
    · rw [if_pos hover]
      obtain ⟨hwf, hpend, hcur, hwait⟩ := ih q.dropTail.1 (wf_dropTail h)
      obtain ⟨hpend', hcur'⟩ := dropTail_service q
      refine ⟨hwf, hpend.trans hpend', hcur.trans hcur', fun f => ?_⟩
      obtain ⟨w, hw⟩ := hwait f
      obtain ⟨w', hw'⟩ := @waiting_dropTail q f
      rw [hw, List.append_assoc] at hw'
      exact ⟨w ++ w', hw'⟩
    · rw [if_neg hover]
      exact ⟨h, rfl, rfl, fun f => ⟨[], (List.append_nil _).symm⟩⟩

end DropTail

/-! ## Service -/

section Service

variable {q q' : FairQueue} {pkt : Packet}

theorem forgetServed_spec (flow : Nat) :
    (q.forgetServed flow).packets = q.packets ∧
      (q.forgetServed flow).roundNumber = q.roundNumber ∧
      (q.forgetServed flow).nPackets = Function.update q.nPackets flow
        (if q.nPacketsOf flow = 1 then none
          else some (Word.sub 32 (q.nPacketsOf flow) 1)) ∧
      (q.forgetServed flow).flowRound =
        if q.nPacketsOf flow = 1 then Function.update q.flowRound flow none
        else q.flowRound := by
  simp only [forgetServed]
  split_ifs
  · exact ⟨rfl, rfl, rfl, rfl⟩
  · exact ⟨rfl, rfl, rfl, rfl⟩

/-- What a completion does: one packet of the served flow is forgotten, nothing that
    waits moves. -/
theorem finishService_eq_some
    (h : q.pending = 0 ∨ (q.pending = 1 ∧ q.currentPkt.isSome = true))
    (hfin : q.finishService = some (q', pkt)) :
    ∃ p, q.currentPkt = some p ∧ q.pending = 1 ∧ q'.pending = 0 ∧
      q'.packets = q.packets ∧ q'.roundNumber = q.roundNumber ∧
      q'.nPackets = (q.forgetServed p.flow).nPackets ∧
      q'.flowRound = (q.forgetServed p.flow).flowRound := by
  unfold finishService at hfin
  split at hfin
  next n p hpend hcur =>
    cases hfin
    obtain ⟨hpkts, hround, -, -⟩ := @forgetServed_spec q p.flow
    have hpend1 : q.pending = 1 := by
      rcases h with h0 | ⟨h1, -⟩
      · omega
      · exact h1
    have hn : n = 0 := by omega
    exact ⟨p, hcur, hpend1, hn, hpkts, hround, rfl, rfl⟩
  next => cases hfin

theorem words_finishService (h : Words q) (hfin : q.finishService = some (q', pkt)) :
    Words q' := by
  unfold finishService at hfin
  split at hfin
  next n p hpend hcur =>
    cases hfin
    obtain ⟨-, -, hnp, hfr⟩ := @forgetServed_spec q p.flow
    refine ⟨Word.sub_lt, ?_, ?_⟩
    · show ∀ f n, (q.forgetServed p.flow).nPackets f = some n → _
      rw [hnp]
      exact update_lt h.nPackets fun _ hx => ite_sub_lt hx
    · show ∀ f r, (q.forgetServed p.flow).flowRound f = some r → _
      rw [hfr]
      split_ifs
      · exact update_lt h.flowRound fun _ hx => by cases hx
      · exact h.flowRound
  next => cases hfin

theorem start_finishService (h : Wf q) (hfin : q.finishService = some (q', pkt)) (f : Nat) :
    q'.waiting f = q.waiting f ∧ q'.start f = q.start f := by
  obtain ⟨p, -, -, -, hpkts, hround, -, -⟩ := finishService_eq_some h.service hfin
  have hw : q'.waiting f = q.waiting f := waiting_congr hpkts f
  exact ⟨hw, start_congr hw hround⟩

/-- The packet served is one less of its flow. -/
theorem count_finishService
    (hservice : q.pending = 0 ∨ (q.pending = 1 ∧ q.currentPkt.isSome = true))
    (hfin : q.finishService = some (q', pkt)) {p : Packet} (hcur : q.currentPkt = some p)
    (f : Nat) : q.count f = q'.count f + if p.flow = f then 1 else 0 := by
  obtain ⟨p', hcur', hpend, hpend', hpkts, -, -, -⟩ := finishService_eq_some hservice hfin
  have hwait : q'.waiting f = q.waiting f := waiting_congr hpkts f
  simp only [count, inService]
  rw [hwait, hpend, hpend', hcur]
  rfl

theorem wf_finishService (h : Wf q) (hfin : q.finishService = some (q', pkt)) :
    Wf q' ∧ q'.pending = 0 := by
  have hstart := start_finishService h hfin
  obtain ⟨p, hcur, hpend, hpend', hpkts, hround, hnp, hfr⟩ := finishService_eq_some h.service hfin
  obtain ⟨-, -, hnp', hfr'⟩ := @forgetServed_spec q p.flow
  have hcount := count_finishService h.service hfin hcur
  refine ⟨?_, hpend'⟩
  refine
    { sorted := by rw [hpkts]; exact h.sorted
      size_pos := by rw [hpkts]; exact h.size_pos
      ge_round := by rw [hpkts, hround]; exact h.ge_round
      contiguous := fun f => by rw [(hstart f).1, (hstart f).2]; exact h.contiguous f
      start_le := fun f => by rw [(hstart f).2, hround]; exact h.start_le f
      nPackets := by rw [hnp, hnp']; exact nPackets_remove h.words h.nPackets hcount
      flowRound := ?_
      served_start := fun f hf => absurd (if_pos hpend') hf
      service := Or.inl hpend'
      words := words_finishService h.words hfin }
  intro f
  have hcf := hcount f
  rw [hfr, hfr', (hstart f).1, (hstart f).2, h.nPacketsOf, hcount p.flow, if_pos rfl]
  simp only [Nat.add_eq_right]
  by_cases hf : p.flow = f
  · subst hf
    rw [if_pos rfl] at hcf
    by_cases h1 : q'.count p.flow = 0
    · rw [if_pos h1, if_pos h1, Function.update_self]
    · rw [if_neg h1, if_neg h1, h.flowRound p.flow, if_neg (by omega)]
  · rw [if_neg hf, Nat.add_zero] at hcf
    rw [← hcf, ← h.flowRound f]
    by_cases h1 : q'.count p.flow = 0
    · rw [if_pos h1, Function.update_of_ne (Ne.symm hf)]
    · rw [if_neg h1]

theorem beginService_of_nil (h : q.packets = []) : q.beginService = (q, []) := by
  simp only [beginService]
  rw [h]

theorem beginService_of_cons {e : Nat × Packet} {rest : List (Nat × Packet)}
    (h : q.packets = e :: rest) :
    q.beginService = ({ q with
      roundNumber := e.1, currentPkt := some e.2, packets := rest,
      pending := q.pending + 1 }, [e.2]) := by
  simp only [beginService]
  rw [h]

/-- The tag of the packet taken into service is the start tag of what is left of its
    flow; the other flows that wait are not touched. -/
theorem start_beginService (h : Wf q) {e : Nat × Packet} {rest : List (Nat × Packet)}
    (hcons : q.packets = e :: rest) :
    q.waiting e.2.flow = e :: q.beginService.1.waiting e.2.flow ∧
      q.beginService.1.start e.2.flow = e.1 ∧ e.1 = q.start e.2.flow + e.2.size ∧
      ∀ f, e.2.flow ≠ f → q.beginService.1.waiting f = q.waiting f := by
  have hwait := fun f => @waiting_of_cons q q.beginService.1 e
    (by rw [beginService_of_cons hcons]; exact hcons) f
  have hself : q.waiting e.2.flow = e :: q.beginService.1.waiting e.2.flow := by
    rw [hwait e.2.flow, if_pos rfl, List.singleton_append]
  obtain ⟨-, -, htag, hrest⟩ := h.head hself
  refine ⟨hself, ?_, htag, fun f hf => ?_⟩
  · cases hw : q.beginService.1.waiting e.2.flow with
    | nil =>
      rw [start_of_waiting_nil hw, beginService_of_cons hcons]
    | cons e' l =>
      rw [hw] at hrest
      rw [start_of_waiting_cons hw, hrest.1, Nat.add_sub_cancel]
  · rw [hwait f, if_neg hf, List.nil_append]

/-- A flow other than the served one that waits keeps its start. -/
theorem start_beginService_ne (h : Wf q) {e : Nat × Packet} {rest : List (Nat × Packet)}
    (hcons : q.packets = e :: rest) {f : Nat} (hf : e.2.flow ≠ f) (hne : q.waiting f ≠ []) :
    q.beginService.1.start f = q.start f := by
  obtain ⟨-, -, -, hother⟩ := start_beginService h hcons
  exact start_of_waiting_append (w := []) (by rw [hother f hf, List.append_nil])
    (by rw [hother f hf]; exact hne)

theorem inService_beginService {e : Nat × Packet} {rest : List (Nat × Packet)}
    (hcons : q.packets = e :: rest) (f : Nat) :
    q.beginService.1.inService f = if e.2.flow = f then 1 else 0 := by
  rw [beginService_of_cons hcons]
  exact if_neg (Nat.succ_ne_zero _)

/-- A packet that is taken into service is still counted. -/
theorem count_beginService (hidle : q.pending = 0) (f : Nat) :
    q.beginService.1.count f = q.count f := by
  cases hpkts : q.packets with
  | nil => rw [beginService_of_nil hpkts]
  | cons e rest =>
    have hwait := @waiting_of_cons q q.beginService.1 e
      (by rw [beginService_of_cons hpkts]; exact hpkts) f
    have hserv : q.inService f = 0 := if_pos hidle
    simp only [count, hserv, inService_beginService hpkts, hwait, List.length_append]
    by_cases hf : e.2.flow = f
    · rw [if_pos hf, if_pos hf, List.length_singleton]
      omega
    · rw [if_neg hf, if_neg hf, List.length_nil]
      omega

/-- The first packet has the least tag. -/
theorem tag_le_of_sorted {e : Nat × Packet} {rest : List (Nat × Packet)}
    (h : ∀ x ∈ rest, comparedBy e ≤ comparedBy x) : ∀ x ∈ rest, e.1 ≤ x.1 := by
  intro x hx
  rcases Prod.Lex.toLex_le_toLex.mp (h x hx) with hlt | ⟨heq, -⟩
  · exact hlt.le
  · exact heq.le

/-- The `_flowRound` of a flow stays the tag of its last packet, also when that is the one
    taken into service. -/
theorem flowRound_beginService (h : Wf q) (hidle : q.pending = 0) {e : Nat × Packet}
    {rest : List (Nat × Packet)} (hcons : q.packets = e :: rest) (f : Nat) :
    q.beginService.1.flowRound f = if q.beginService.1.count f = 0 then none
      else some (finishTag (q.beginService.1.start f) (q.beginService.1.waiting f)) := by
  obtain ⟨hself, hstart, -, hother⟩ := start_beginService h hcons
  have hkept : q.beginService.1.flowRound f = q.flowRound f := by
    rw [beginService_of_cons hcons]
  rw [hkept, h.flowRound f, count_beginService hidle]
  by_cases h0 : q.count f = 0
  · rw [if_pos h0, if_pos h0]
  · rw [if_neg h0, if_neg h0]
    by_cases hf : e.2.flow = f
    · subst hf
      rw [hself, hstart]
      rfl
    · have hne : q.waiting f ≠ [] :=
        fun hnil => h0 (count_eq_zero.mpr ⟨hnil, if_pos hidle⟩)
      rw [hother f hf, start_beginService_ne h hcons hf hne]

theorem words_beginService (h : Words q) : Words q.beginService.1 := by
  cases hpkts : q.packets with
  | nil =>
    rw [beginService_of_nil hpkts]
    exact h
  | cons e rest =>
    rw [beginService_of_cons hpkts]
    exact ⟨h.queuesize, h.nPackets, h.flowRound⟩

theorem wf_beginService (h : Wf q) (hidle : q.pending = 0) : Wf q.beginService.1 := by
  cases hpkts : q.packets with
  | nil =>
    rw [beginService_of_nil hpkts]
    exact h
  | cons e rest =>
    obtain ⟨hself, hstart, -, hother⟩ := start_beginService h hpkts
    have hq' := congrArg Prod.fst (beginService_of_cons hpkts)
    have hround' : q.beginService.1.roundNumber = e.1 := by rw [hq']
    have hpkts' : q.beginService.1.packets = rest := by rw [hq']
    have hsorted := h.sorted
    rw [hpkts, List.pairwise_cons] at hsorted
    have hround : q.roundNumber ≤ e.1 := h.ge_round e (by rw [hpkts]; exact List.mem_cons_self)
    have hmem : ∀ x ∈ rest, x ∈ q.packets := by
      intro x hx
      rw [hpkts]
      exact List.mem_cons_of_mem _ hx
    refine
      { sorted := by rw [hpkts']; exact hsorted.2
        size_pos := fun x hx => h.size_pos x (hmem x (by rw [← hpkts']; exact hx))
        ge_round := by rw [hpkts', hround']; exact tag_le_of_sorted hsorted.1
        contiguous := ?_
        start_le := ?_
        nPackets := fun f => by rw [count_beginService hidle, hq']; exact h.nPackets f
        flowRound := flowRound_beginService h hidle hpkts
        served_start := ?_
        service := by rw [hq', hidle]; exact Or.inr ⟨rfl, rfl⟩
        words := words_beginService h.words }
    · intro f
      by_cases hf : e.2.flow = f
      · subst hf
        rw [hstart]
        exact (h.head hself).2.2.2
      · cases hw : q.waiting f with
        | nil =>
          rw [hother f hf, hw]
          trivial
        | cons x l =>
          rw [start_beginService_ne h hpkts hf (by rw [hw]; exact List.cons_ne_nil _ _),
            hother f hf]
          exact h.contiguous f
    · -- the served flow starts at the new round number, the others not later than before
      intro f
      rw [hround']
      by_cases hf : e.2.flow = f
      · subst hf
        rw [hstart]
      · cases hw : q.waiting f with
        | nil =>
          rw [start_of_waiting_nil (by rw [hother f hf, hw]), hround']
        | cons x l =>
          rw [start_beginService_ne h hpkts hf (by rw [hw]; exact List.cons_ne_nil _ _)]
          exact (h.start_le f).trans hround
    · -- only the flow of `e` is in service
      intro f hf
      rw [inService_beginService hpkts] at hf
      have hflow : e.2.flow = f := by
        by_contra hne
        rw [if_neg hne] at hf
        exact hf rfl
      rw [← hflow, hstart, hround']

/-- Taking a packet into service moves the start tag of a waiting flow by exactly the
    bytes of that flow taken. -/
theorem start_beginService_eq (h : Wf q) {f : Nat} (hne : q.waiting f ≠ []) :
    q.beginService.1.start f = q.start f + bytesOf f q.beginService.2 := by
  cases hpkts : q.packets with
  | nil =>
    rw [beginService_of_nil hpkts]
    rfl
  | cons e rest =>
    obtain ⟨-, hstart, htag, -⟩ := start_beginService h hpkts
    have htaken : q.beginService.2 = [e.2] := by rw [beginService_of_cons hpkts]
    rw [htaken, bytesOf_singleton]
    by_cases hf : e.2.flow = f
    · subst hf
      rw [hstart, htag, if_pos rfl]
    · rw [if_neg hf]
      exact start_beginService_ne h hpkts hf hne

end Service

/-! ## Handler calls -/

section Handlers

variable {q : FairQueue}

/-- The storing half of an arrival keeps the invariant, the service, and the start tag of
    every flow that still has a packet waiting. -/
theorem store_spec (h : Wf q) {pkt : Packet} (hfits : q.RoundFits pkt) (hpos : 1 ≤ pkt.size) :
    Wf (q.store pkt).1 ∧ (q.store pkt).1.pending = q.pending ∧
      (q.store pkt).1.currentPkt = q.currentPkt ∧
      ∀ f, (q.store pkt).1.waiting f ≠ [] → (q.store pkt).1.start f = q.start f := by
  obtain ⟨hwf, hpend, hcur, hwait⟩ :=
    dropOverflow_spec (q.enqueue pkt).packets.length (q.enqueue pkt) (wf_enqueue h hfits hpos)
  refine ⟨hwf, hpend, hcur, fun f hne => ?_⟩
  obtain ⟨w, hw⟩ := hwait f
  exact (start_of_waiting_append hw hne).trans (h.start_enqueue hfits hpos f)

/-- An empty queue has no completion pending. -/
theorem Wf.idle_of_wasEmpty (h : Wf q) (hempty : q.wasEmpty = true) : q.pending = 0 := by
  have hcur := (Bool.and_eq_true_iff.mp hempty).1
  rcases h.service with h0 | ⟨-, h1⟩
  · exact h0
  · rw [Option.isNone_iff_eq_none] at hcur
    rw [hcur] at h1
    exact absurd h1 Bool.false_ne_true

theorem wf_receivePacket (h : Wf q) {pkt : Packet} (hfits : q.RoundFits pkt)
    (hpos : 1 ≤ pkt.size) : Wf (q.receivePacket pkt).1 := by
  obtain ⟨hwf, hpend, -, -⟩ := store_spec h hfits hpos
  simp only [receivePacket]
  by_cases hempty : q.wasEmpty = true
  · rw [if_pos hempty]
    exact wf_beginService hwf (hpend.trans (h.idle_of_wasEmpty hempty))
  · rw [if_neg hempty]
    exact hwf

theorem wf_completeService (h : Wf q) {r : FairQueue × List Packet}
    (hr : q.completeService = some r) : Wf r.1 := by
  obtain ⟨⟨q', pkt⟩, hfin, rfl⟩ := Option.map_eq_some_iff.mp hr
  obtain ⟨hwf, hidle⟩ := wf_finishService h hfin
  exact wf_beginService hwf hidle

/-- Every packet waiting after a handler call was waiting before it or has just arrived. -/
theorem mem_packets_beginService {e : Nat × Packet} (he : e ∈ q.beginService.1.packets) :
    e ∈ q.packets := by
  cases hpkts : q.packets with
  | nil =>
    rw [beginService_of_nil hpkts, hpkts] at he
    exact he
  | cons x rest =>
    rw [beginService_of_cons hpkts] at he
    exact List.mem_cons_of_mem _ he

theorem mem_packets_dropOverflow (fuel : Nat) (q : FairQueue) {e : Nat × Packet}
    (he : e ∈ (dropOverflow fuel q).1.packets) : e ∈ q.packets := by
  induction fuel generalizing q with
  | zero => exact he
  | succ fuel ih =>
    unfold dropOverflow at he
    by_cases hover : q.maxsize < q.queuesize
    · rw [if_pos hover] at he
      have hmem := ih q.dropTail.1 he
      rcases List.eq_nil_or_concat q.packets with hnil | ⟨l, ⟨tag, p⟩, hcat⟩
      · rw [dropTail_of_nil hnil] at hmem
        exact hmem
      · rw [List.concat_eq_append] at hcat
        rw [(dropTail_of_concat hcat).1] at hmem
        rw [hcat]
        exact List.mem_append_left _ hmem
    · rw [if_neg hover] at he
      exact he

theorem mem_packets_receivePacket {pkt : Packet} {e : Nat × Packet}
    (he : e ∈ (q.receivePacket pkt).1.packets) : e.2 = pkt ∨ e ∈ q.packets := by
  have hstore : e ∈ (q.store pkt).1.packets := by
    unfold receivePacket at he
    by_cases hempty : q.wasEmpty = true
    · rw [if_pos hempty] at he
      exact mem_packets_beginService he
    · rw [if_neg hempty] at he
      exact he
  rcases mem_insertByKey.mp (mem_packets_dropOverflow _ _ hstore) with rfl | hmem
  · exact Or.inl rfl
  · exact Or.inr hmem

theorem mem_packets_completeService (h : Wf q) {r : FairQueue × List Packet}
    (hr : q.completeService = some r) {e : Nat × Packet} (he : e ∈ r.1.packets) :
    e ∈ q.packets := by
  obtain ⟨⟨q', pkt⟩, hfin, rfl⟩ := Option.map_eq_some_iff.mp hr
  obtain ⟨p, -, -, -, hpkts, -⟩ := finishService_eq_some h.service hfin
  rw [← hpkts]
  exact mem_packets_beginService he

end Handlers

/-! ## Fairness -/

/-- Both flows have a packet waiting. -/
def Backlogged (f g : Nat) (q : FairQueue) : Prop := q.waiting f ≠ [] ∧ q.waiting g ≠ []

instance (f g : Nat) (q : FairQueue) : Decidable (Backlogged f g q) :=
  inferInstanceAs (Decidable (_ ∧ _))

/-- Both flows have a packet waiting after the `receivePacket` of this step and before
    its `beginService`. -/
def KeepsBacklogged (f g : Nat) (s : State) : Act → Prop
  | .arrive pkt =>
      (s.q.wasEmpty = true → Backlogged f g (s.q.store pkt).1) ∧
        Backlogged f g (s.q.receivePacket pkt).1
  | .complete => ∀ r ∈ s.q.finishService, Backlogged f g r.1

instance (f g : Nat) : ∀ s a, Decidable (KeepsBacklogged f g s a)
  | _, .arrive _ => inferInstanceAs (Decidable (_ ∧ _))
  | s, .complete => inferInstanceAs (Decidable (∀ r ∈ s.q.finishService, Backlogged f g r.1))

/-- The size of an arriving packet is positive and at most the bound of its flow. -/
def SizedBy (L : Nat → Nat) (a : Act) : Prop :=
  ∀ pkt, a = .arrive pkt → 1 ≤ pkt.size ∧ pkt.size ≤ L pkt.flow

instance (q : FairQueue) (pkt : Packet) : Decidable (q.RoundFits pkt) :=
  decidable_of_iff (_ ∧ _) ⟨fun h => ⟨h.1, h.2⟩, fun h => ⟨h.tag, h.count⟩⟩

/-- An arriving packet gets its tag and is counted without a wrap. -/
def RoundsFit (s : State) : Act → Prop
  | .arrive pkt => s.q.RoundFits pkt
  | .complete => True

instance : ∀ s a, Decidable (RoundsFit s a)
  | s, .arrive pkt => inferInstanceAs (Decidable (s.q.RoundFits pkt))
  | _, .complete => inferInstanceAs (Decidable True)

/-- The invariant with the size bounds of the flows. -/
def WfSized (L : Nat → Nat) (q : FairQueue) : Prop :=
  Wf q ∧ ∀ e ∈ q.packets, e.2.size ≤ L e.2.flow

theorem wfSized_step {L : Nat → Nat} {s t : State} {a : Act} (h : WfSized L s.q)
    (ha : SizedBy L a) (hfits : RoundsFit s a) (hstep : system.step s a = some t) :
    WfSized L t.q := by
  obtain ⟨r, hr, rfl⟩ := Option.map_eq_some_iff.mp hstep
  cases a with
  | arrive pkt =>
    obtain ⟨hpos, hle⟩ := ha pkt rfl
    cases hr
    refine ⟨wf_receivePacket h.1 hfits hpos, fun e he => ?_⟩
    rcases mem_packets_receivePacket he with hpkt | hmem
    · rw [hpkt]
      exact hle
    · exact h.2 e hmem
  | complete =>
    exact ⟨wf_completeService h.1 hr, fun e he => h.2 e (mem_packets_completeService h.1 hr he)⟩

/-- A step moves the start tag of a flow by the bytes of that flow it takes into service,
    if the flow has a packet waiting wherever `KeepsBacklogged` says so. -/
theorem start_step {L : Nat → Nat} {f g : Nat} {s t : State} {a : Act} (h : WfSized L s.q)
    (ha : SizedBy L a) (hfits : RoundsFit s a) (hkeep : KeepsBacklogged f g s a)
    (hstep : system.step s a = some t) :
    (bytesOf f t.taken + s.q.start f = bytesOf f s.taken + t.q.start f) ∧
      (bytesOf g t.taken + s.q.start g = bytesOf g s.taken + t.q.start g) := by
  obtain ⟨r, hr, rfl⟩ := Option.map_eq_some_iff.mp hstep
  simp only [bytesOf_append]
  -- what a flow has been served and its start tag move by the same bytes while it is backlogged
  cases a with
  | arrive pkt =>
    obtain ⟨hwf, -, -, hstart⟩ := store_spec h.1 hfits (ha pkt rfl).1
    cases hr
    obtain ⟨hbefore, hafter⟩ := hkeep
    simp only [receivePacket] at hafter ⊢
    by_cases hempty : s.q.wasEmpty = true
    · obtain ⟨hf, hg⟩ := hbefore hempty
      rw [if_pos hempty, start_beginService_eq hwf hf, start_beginService_eq hwf hg,
        hstart f hf, hstart g hg]
      omega
    · rw [if_neg hempty] at hafter ⊢
      rw [hstart f hafter.1, hstart g hafter.2]
      exact ⟨rfl, rfl⟩
  | complete =>
    obtain ⟨⟨q', pkt⟩, hfin, rfl⟩ := Option.map_eq_some_iff.mp hr
    obtain ⟨hwf, -⟩ := wf_finishService h.1 hfin
    obtain ⟨hf, hg⟩ := hkeep _ hfin
    show bytesOf f s.taken + bytesOf f q'.beginService.2 + _ = _ + q'.beginService.1.start f ∧
      bytesOf g s.taken + bytesOf g q'.beginService.2 + _ = _ + q'.beginService.1.start g
    rw [start_beginService_eq hwf hf, start_beginService_eq hwf hg,
      (start_finishService h.1 hfin f).2, (start_finishService h.1 hfin g).2]
    omega

/-- Self-clocked fair queueing is fair while no tag wraps.  Over any part of a run in which
    flows `f` and `g` both have a packet waiting after every `receivePacket` and before every
    `beginService`, the bytes of `f` and the bytes of `g` taken into service differ by at
    most one largest packet of each, whatever else arrives or is dropped. -/
theorem taken_fair (bitrate maxsize : Nat) (uninit : Option Packet) (L : Nat → Nat)
    (f g : Nat) (before during : List Act) (s t : State)
    (hsized : ∀ a ∈ before ++ during, SizedBy L a)
    (hbefore : system.run (init bitrate maxsize uninit) before = some s)
    (hfitsBefore : system.Along RoundsFit (init bitrate maxsize uninit) before)
    (hduring : system.run s during = some t) (hfits : system.Along RoundsFit s during)
    (hkeep : system.Along (KeepsBacklogged f g) s during) :
    |((bytesOf f t.taken : ℤ) - bytesOf f s.taken) -
      ((bytesOf g t.taken : ℤ) - bytesOf g s.taken)| ≤ L f + L g := by
  have hs : WfSized L s.q :=
    Lts.run_induction_along (I := fun u => WfSized L u.q)
      (fun u a u' hu ha hstep => wfSized_step hu ha.2 ha.1 hstep)
      ⟨wf_new bitrate maxsize uninit, fun _ he => absurd he List.not_mem_nil⟩
      (hfitsBefore.and
        (Lts.along_of_forall_mem fun a ha => hsized a (List.mem_append_left _ ha))) hbefore
  have hguard := (hkeep.and hfits).and
    (Lts.along_of_forall_mem fun a ha => hsized a (List.mem_append_right _ ha))
  -- the difference of two flows drifts with that of their start tags, which are near
  have hdrift : _ ≤ (L g : ℤ) - -(L f : ℤ) := Lts.run_drift_bound
    (I := fun u => WfSized L u.q)
    (fun u => (bytesOf f u.taken : ℤ) - bytesOf g u.taken)
    (fun u => (u.q.start f : ℤ) - u.q.start g)
    (fun u a u' hu ha hstep => wfSized_step hu ha.2 ha.1.2 hstep) ?_ ?_ hs hguard hduring
  · rw [show (L f : ℤ) + L g = L g - -(L f : ℤ) by omega]
    convert hdrift using 2
    omega
  · -- the bytes taken and the start tags move together
    intro u a u' hu ha hstep
    obtain ⟨hf, hg⟩ := start_step hu ha.2 ha.1.2 ha.1.1 hstep
    show (_ : ℤ) = _
    omega
  · -- and no start tag is far from the round number
    intro u hu
    have hf := hu.1.start_bounds (f := f) fun e he hflow => hflow ▸ hu.2 e he
    have hg := hu.1.start_bounds (f := g) fun e he hflow => hflow ▸ hu.2 e he
    show (_ : ℤ) ≤ _ ∧ (_ : ℤ) ≤ _
    omega

/-- Two flows with four packets between them waiting, over three services. -/
theorem taken_fair_two :
    ∃ s t : State,
      system.run (init 1000 10000 none)
        [.arrive ⟨1, 100, 1, false⟩, .arrive ⟨1, 100, 2, false⟩, .arrive ⟨1, 100, 3, false⟩,
          .arrive ⟨1, 100, 4, false⟩, .arrive ⟨2, 250, 1, false⟩, .arrive ⟨2, 250, 2, false⟩]
        = some s ∧
      system.run s [.complete, .complete, .complete] = some t ∧
      |((bytesOf 1 t.taken : ℤ) - bytesOf 1 s.taken) -
        ((bytesOf 2 t.taken : ℤ) - bytesOf 2 s.taken)| ≤ 250 + 250 := by
  refine ⟨(system.run _ _).get (by decide +kernel), (system.run _ _).get (by decide +kernel),
    (Option.some_get _).symm, (Option.some_get _).symm,
    taken_fair 1000 10000 none (fun _ => 250) 1 2 _ _ _ _ ?_ (Option.some_get _).symm ?_
      (Option.some_get _).symm ?_ ?_⟩
  · intro a ha pkt hpkt
    subst hpkt
    simp only [List.cons_append, List.nil_append, List.mem_cons, Act.arrive.injEq, reduceCtorEq,
      or_false, List.not_mem_nil] at ha
    rcases ha with rfl | rfl | rfl | rfl | rfl | rfl <;> decide
  · decide +kernel
  · decide +kernel
  · decide +kernel

/-! ## Tags beyond `2 ^ 64`

A flow that has the queue to itself for `2 ^ 64` bytes brings its tags to the end of their
range.  The next tag wraps and is then the least one there is. -/

/-- The loop does nothing while what is stored fits. -/
theorem dropOverflow_of_le {q : FairQueue} (h : q.queuesize ≤ q.maxsize) (fuel : Nat) :
    dropOverflow fuel q = (q, []) := by
  cases fuel with
  | zero => rfl
  | succ fuel => simp only [dropOverflow, if_neg (not_lt.mpr h)]

/-- A packet of `2 ^ 30` bytes. -/
def block (flow id : Nat) : Packet := { flow := flow, size := 2 ^ 30, id := id }

/-- The queue after `n` services of flow 0, which alone uses it: one packet is in service and
    one waits. -/
def aged (maxsize n : Nat) : FairQueue where
  bitrate := 10000000000
  maxsize := maxsize
  queuesize := 2 ^ 31
  packets := [((n + 2) * 2 ^ 30, block 0 0)]
  flowRound := Function.update (fun _ => none) 0 (some ((n + 2) * 2 ^ 30))
  nPackets := Function.update (fun _ => none) 0 (some 2)
  roundNumber := (n + 1) * 2 ^ 30
  currentPkt := some (block 0 0)
  pending := 1

/-- The same queue with nothing but the packet in service. -/
def serving (maxsize n : Nat) : FairQueue :=
  { aged maxsize n with
    queuesize := 2 ^ 30
    packets := []
    flowRound := Function.update (fun _ => none) 0 (some ((n + 1) * 2 ^ 30))
    nPackets := Function.update (fun _ => none) 0 (some 1) }

/-- Two packets of flow 0 arrive, and one more after each of `n` completions. -/
def ageing : Nat → List Act
  | 0 => [.arrive (block 0 0), .arrive (block 0 0)]
  | n + 1 => ageing n ++ [.complete, .arrive (block 0 0)]

theorem new_arrive {maxsize : Nat} (hmax : 2 ^ 31 ≤ maxsize) :
    (new 10000000000 maxsize none).receivePacket (block 0 0) =
      (serving maxsize 0, [block 0 0]) := by
  have henqueue : (new 10000000000 maxsize none).enqueue (block 0 0) =
      { serving maxsize 0 with
        packets := [(2 ^ 30, block 0 0)], roundNumber := 0, currentPkt := none, pending := 0 } := by
    simp [enqueue, finishRound, baseRound, nPacketsOf, new, serving, aged, block, Word.add,
      insertByKey]
  have hstore : ((new 10000000000 maxsize none).store (block 0 0)).1 =
      (new 10000000000 maxsize none).enqueue (block 0 0) := by
    rw [store, henqueue]
    exact congrArg Prod.fst (dropOverflow_of_le ((Nat.pow_le_pow_right two_pos
      (by decide)).trans hmax) _)
  have hempty : (new 10000000000 maxsize none).wasEmpty = true := rfl
  rw [receivePacket, if_pos hempty, hstore, henqueue]
  rfl

theorem serving_arrive {maxsize n : Nat} (hmax : 2 ^ 31 ≤ maxsize) (hn : n + 2 < 2 ^ 34) :
    (serving maxsize n).receivePacket (block 0 0) = (aged maxsize n, []) := by
  have htag : (serving maxsize n).finishRound (block 0 0) = (n + 2) * 2 ^ 30 := by
    have hbase : (serving maxsize n).baseRound (block 0 0) = (n + 1) * 2 ^ 30 := by
      simp [baseRound, serving, aged, block]
    rw [finishRound, hbase, Word.add_of_lt]
    · show (n + 1) * 2 ^ 30 + 2 ^ 30 = _
      omega
    · show (n + 1) * 2 ^ 30 + 2 ^ 30 < _
      omega
  have henqueue : (serving maxsize n).enqueue (block 0 0) = aged maxsize n := by
    rw [enqueue, htag]
    simp [serving, aged, nPacketsOf, block, Word.add, insertByKey]
  have hstore : (serving maxsize n).store (block 0 0) = (aged maxsize n, []) := by
    rw [store, henqueue]
    exact dropOverflow_of_le hmax _
  rw [receivePacket, hstore]
  rfl

theorem aged_complete (maxsize n : Nat) :
    (aged maxsize n).completeService = some (serving maxsize (n + 1), [block 0 0]) := by
  simp [completeService, finishService, aged, serving, forgetServed, nPacketsOf, beginService,
    block, Word.sub]

theorem size_of_mem_ageing {n : Nat} {pkt : Packet} (h : .arrive pkt ∈ ageing n) :
    pkt.size = 2 ^ 30 := by
  induction n with
  | zero =>
    simp only [ageing, List.mem_cons, Act.arrive.injEq, List.not_mem_nil, or_false, or_self] at h
    rw [h]
    rfl
  | succ n ih =>
    simp only [ageing, List.mem_append, List.mem_cons, Act.arrive.injEq, reduceCtorEq,
      List.not_mem_nil, false_or, or_false] at h
    rcases h with h | h
    · exact ih h
    · rw [h]
      rfl

/-- In `n` services the tags grow to `(n + 2) * 2 ^ 30`. -/
theorem run_ageing {maxsize : Nat} (hmax : 2 ^ 31 ≤ maxsize) (n : Nat) (hn : n + 2 < 2 ^ 34) :
    system.run (init 10000000000 maxsize none) (ageing n) =
      some ⟨aged maxsize n, List.replicate (n + 1) (block 0 0)⟩ := by
  induction n with
  | zero =>
    simp only [ageing, Lts.run_cons, Lts.run_nil, system, handle, init, new_arrive hmax,
      serving_arrive hmax hn, Option.map_some, Option.bind_some, List.append_nil]
    rfl
  | succ n ih =>
    refine Lts.run_trans (ih (by omega)) ?_
    simp only [Lts.run_cons, Lts.run_nil, system, handle, aged_complete,
      serving_arrive hmax hn, Option.map_some, Option.bind_some, List.append_nil]
    rw [← List.replicate_succ']

/-- The packets taken before play no part in a run. -/
theorem run_taken (taken : List Packet) (q : FairQueue) (as : List Act) :
    system.run ⟨q, taken⟩ as =
      (system.run ⟨q, []⟩ as).map fun s => ⟨s.q, taken ++ s.taken⟩ := by
  induction as generalizing q taken with
  | nil => simp
  | cons a as ih =>
    simp only [Lts.run_cons, system, Option.bind_map]
    cases q.handle a with
    | none => rfl
    | some r =>
      simp only [Option.bind_some, Function.comp_apply, List.nil_append]
      have h1 := ih (taken ++ r.2) r.1
      have h2 := ih r.2 r.1
      simp only [system] at h1 h2
      rw [h1, h2, Option.map_map]
      simp [Function.comp_def]

/-- Six packets of flow 1 come in when the tags of flow 0 end.  Every second one gets a tag
    that wrapped. -/
def late : List Act :=
  [.arrive (block 1 1), .arrive (block 1 2), .arrive (block 1 3), .arrive (block 1 4),
    .arrive (block 1 5), .arrive (block 1 6)]

/-- When they are stored. -/
def lateStored : State :=
  (system.run ⟨aged (2 ^ 33) (2 ^ 34 - 3), List.replicate (2 ^ 34 - 3 + 1) (block 0 0)⟩ late).get
    (by decide +kernel)

/-- The three packets that wrapped are served one after the other, while a packet of flow 0
    waits all the time. -/
theorem taken_unfair :
    ¬ ∀ (bitrate maxsize : Nat) (uninit : Option Packet) (L : Nat → Nat) (f g : Nat)
        (before during : List Act) (s t : State),
      (∀ a ∈ before ++ during, SizedBy L a) →
      system.run (init bitrate maxsize uninit) before = some s →
      system.run s during = some t →
      system.Along (KeepsBacklogged f g) s during →
      |((bytesOf f t.taken : ℤ) - bytesOf f s.taken) -
        ((bytesOf g t.taken : ℤ) - bytesOf g s.taken)| ≤ L f + L g := by
  intro hall
  have hbefore : system.run (init 10000000000 (2 ^ 33) none) (ageing (2 ^ 34 - 3) ++ late) =
      some lateStored :=
    Lts.run_trans (run_ageing (by decide) (2 ^ 34 - 3) (by decide)) (Option.some_get _).symm
  have hserve : (system.run ⟨lateStored.q, []⟩ [.complete, .complete, .complete]).map
      State.taken = some [block 1 2, block 1 4, block 1 6] := by decide +kernel
  have hkeep : system.Along (KeepsBacklogged 1 0) lateStored
      [.complete, .complete, .complete] := by decide +kernel
  obtain ⟨t, ht, htaken⟩ := Option.map_eq_some_iff.mp hserve
  have hduring : system.run lateStored [.complete, .complete, .complete] =
      some ⟨t.q, lateStored.taken ++ t.taken⟩ := (run_taken _ _ _).trans (congrArg _ ht)
  have hfair := hall 10000000000 (2 ^ 33) none (fun _ => 2 ^ 30) 1 0 _ _ _ _ ?_ hbefore hduring
    hkeep
  · rw [htaken] at hfair
    simp only [bytesOf_append] at hfair
    have h1 : bytesOf 1 [block 1 2, block 1 4, block 1 6] = 3 * 2 ^ 30 := by decide
    have h0 : bytesOf 0 [block 1 2, block 1 4, block 1 6] = 0 := by decide
    rw [h1, h0] at hfair
    rw [abs_le] at hfair
    omega
  · rintro a ha pkt rfl
    have hsize : pkt.size = 2 ^ 30 := by
      simp only [late, List.mem_append, List.mem_cons, Act.arrive.injEq, reduceCtorEq,
        List.not_mem_nil, or_false] at ha
      rcases ha with ha | rfl | rfl | rfl | rfl | rfl | rfl
      · exact size_of_mem_ageing ha
      all_goals rfl
    rw [hsize]
    exact ⟨Nat.one_le_two_pow, le_rfl⟩

end FairQueue
end Htsim
end DatacenterNetworking
