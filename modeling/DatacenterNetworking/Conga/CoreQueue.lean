/-
  DatacenterNetworking.Conga.CoreQueue

  `CoreQueue` (`conga.h`): the queue from a core to a ToR, which stamps the packets with
  the congestion it has seen.  `regCong` averages the occupancy of the queue over the
  arrivals, and starts again from the last occupancy when it has gone down to almost
  nothing.

  Everything is in exact arithmetic: sizes are natural numbers and `regCong` is rational.
  With `_maxsize` up to `2^63` the queue is that of `Htsim.FifoQueue`, whose sizes are of
  64 bits (`receiveQueue_fifo`).

  The queue may be full.  But when the average starts again it was almost empty one
  arrival before, and one packet fills half of it at most: `regCong` stays below 1, and
  the metric in its `CE_BITS` bits (`ce_in_range`).
-/

import DatacenterNetworking.Conga.RouteShape
import DatacenterNetworking.Htsim.FifoQueue
import Mathlib.Algebra.Order.Field.Basic
import Mathlib.Tactic.Linarith

namespace DatacenterNetworking
namespace Conga

open Htsim (Packet applyEcnMark FifoQueue QueueCfg)

/-- A packet as the queue sees it: its route, and the index of its next hop there. -/
structure CorePkt where
  pkt : Packet
  route : List Testbed.Hop
  nexthop : Nat
  vxlan : Vxlan
  passedCore : Bool

/-- The number of the ToR behind the next hop; `none` if there is no ToR. -/
def CorePkt.egPort (p : CorePkt) : Option Nat :=
  match p.route[p.nexthop + 1]? with
  | some (.tor leaf) => some leaf
  | _ => none

/-- `CoreQueue`, with the packets oldest first.  `sentOn` is the history of the packets that
    have left. -/
structure CoreQueue where
  coreId : Nat
  torId : Nat
  bitrate : Nat
  maxsize : Nat
  enqueued : List CorePkt
  queuesize : Nat
  regCong : Nat → Rat
  sentOn : List CorePkt

namespace CoreQueue

/-- `CoreQueue::CE_BITS`. -/
def CE_BITS : Nat := 6

/-- The constructor. -/
def new (coreId torId bitrate maxsize : Nat) : CoreQueue where
  coreId := coreId
  torId := torId
  bitrate := bitrate
  maxsize := maxsize
  enqueued := []
  queuesize := 0
  regCong := fun _ => 0
  sentOn := []

/-- `egCe`, a `uint8_t`. -/
def egCe (q : CoreQueue) (egPort : Nat) : Nat :=
  (q.regCong egPort * 2 ^ CE_BITS).floor.toNat % 256

/-- The packet with the metric and the flag. -/
def stamp (q : CoreQueue) (egPort : Nat) (p : CorePkt) : CorePkt :=
  { p with vxlan := { p.vxlan with ce := q.egCe egPort }, passedCore := true }

/-- `Queue::receivePacket`. -/
def receiveQueue (q : CoreQueue) (p : CorePkt) : CoreQueue :=
  if q.maxsize < q.queuesize + p.pkt.size then q
  else { q with enqueued := q.enqueued ++ [p], queuesize := q.queuesize + p.pkt.size }

/-- `_queuesize * 1.0 / _maxsize`. -/
def occupancy (q : CoreQueue) : Rat := q.queuesize * 1 / q.maxsize

/-- `CoreQueue::updateRegCong`. -/
def updateRegCong (q : CoreQueue) (egPort : Nat) : CoreQueue :=
  { q with
    regCong := Function.update q.regCong egPort
      (if |q.regCong egPort - 0| < 1 / 10 ^ 5 then q.occupancy
      else q.regCong egPort * 7 / 8 + q.occupancy * 1 / 8) }

/-- `CoreQueue::receivePacket`; there must be a ToR behind the next hop. -/
def receivePacket (q : CoreQueue) (p : CorePkt) : Option CoreQueue :=
  p.egPort.map fun egPort => (q.receiveQueue (q.stamp egPort p)).updateRegCong egPort

/-- `Queue::completeService`. -/
def completeService (q : CoreQueue) : Option CoreQueue :=
  match q.enqueued with
  | [] => none
  | p :: rest =>
      let queuesize := q.queuesize - p.pkt.size
      some { q with
        enqueued := rest
        queuesize := queuesize
        sentOn := q.sentOn ++ [{ p with pkt := applyEcnMark q.bitrate queuesize p.pkt }] }

/-- A packet arrives, or the service of the oldest one is complete. -/
inductive Act where
  | arrive (p : CorePkt)
  | depart

/-- The queue under any sequence of arrivals and departures. -/
def system : Lts CoreQueue Act where
  step
    | q, .arrive p => q.receivePacket p
    | q, .depart => q.completeService

/-! ## The range of the metric -/

/-- The average of the one ToR is at least 0 and less than 1; the metric made of it needs no
    seventh bit, and none of the packets carries more. -/
structure CeInRange (q : CoreQueue) : Prop where
  nonneg : 0 ≤ q.regCong q.torId
  lt_one : q.regCong q.torId < 1
  ce_le : q.egCe q.torId ≤ 2 ^ CE_BITS - 1
  exact : q.egCe q.torId = (q.regCong q.torId * 2 ^ CE_BITS).floor
  stamped : ∀ p ∈ q.enqueued ++ q.sentOn, p.vxlan.ce ≤ 2 ^ CE_BITS - 1

/-- The invariant.  While the average is almost nothing, so is the queue. -/
structure Inv (torId maxsize : Nat) (q : CoreQueue) : Prop where
  torId_eq : q.torId = torId
  maxsize_eq : q.maxsize = maxsize
  nonneg : 0 ≤ q.regCong torId
  lt_one : q.regCong torId < 1
  size_eq : q.queuesize = (q.enqueued.map fun p => p.pkt.size).sum
  size_le : q.queuesize ≤ maxsize
  nearlyEmpty : q.regCong torId < 1 / 10 ^ 5 → 10 * q.queuesize ≤ maxsize
  stamped : ∀ p ∈ q.enqueued ++ q.sentOn, p.vxlan.ce ≤ 2 ^ CE_BITS - 1

/-- As in the testbed, all packets leave to the ToR `torId`; and two of them fit into the
    queue. -/
def Wired (torId maxsize : Nat) : Act → Prop
  | .arrive p => p.egPort = some torId ∧ 1 ≤ p.pkt.size ∧ 2 * p.pkt.size ≤ maxsize
  | .depart => True

instance (torId maxsize : Nat) : (a : Act) → Decidable (Wired torId maxsize a)
  | .arrive _ => inferInstanceAs (Decidable (_ ∧ _ ∧ _))
  | .depart => isTrue trivial

section Range

variable {torId maxsize : Nat} {q q' : CoreQueue} {p : CorePkt}

theorem inv_new (coreId torId bitrate maxsize : Nat) :
    Inv torId maxsize (new coreId torId bitrate maxsize) where
  torId_eq := rfl
  maxsize_eq := rfl
  nonneg := le_rfl
  lt_one := zero_lt_one
  size_eq := rfl
  size_le := Nat.zero_le _
  nearlyEmpty := fun _ => Nat.zero_le _
  stamped := fun _ hp => absurd hp List.not_mem_nil

/-- A metric below 1 keeps its integral part below `2 ^ CE_BITS`. -/
theorem egCe_eq {egPort : Nat} (h₀ : 0 ≤ q.regCong egPort) (h₁ : q.regCong egPort < 1) :
    q.egCe egPort ≤ 2 ^ CE_BITS - 1 ∧
      (q.egCe egPort : Int) = (q.regCong egPort * 2 ^ CE_BITS).floor := by
  have hbits : (2 : Rat) ^ CE_BITS = 64 := by norm_num [CE_BITS]
  have hpow : 2 ^ CE_BITS - 1 = 63 := rfl
  have hlow : 0 ≤ (q.regCong egPort * 2 ^ CE_BITS).floor := by
    rw [Rat.le_floor_iff, hbits]
    push_cast
    linarith
  have hhigh : (q.regCong egPort * 2 ^ CE_BITS).floor < 64 := by
    rw [Rat.floor_lt_iff, hbits]
    push_cast
    linarith
  rw [egCe, hpow]
  omega

theorem Inv.ceInRange (h : Inv torId maxsize q) : CeInRange q := by
  have hce := egCe_eq h.nonneg h.lt_one
  rw [← h.torId_eq] at hce
  exact
    { nonneg := by rw [h.torId_eq]; exact h.nonneg
      lt_one := by rw [h.torId_eq]; exact h.lt_one
      ce_le := hce.1
      exact := hce.2
      stamped := h.stamped }

/-! ### The occupancy, from the size -/

theorem occupancy_nonneg (q : CoreQueue) : 0 ≤ q.occupancy :=
  div_nonneg (mul_nonneg (Nat.cast_nonneg _) zero_le_one) (Nat.cast_nonneg _)

theorem occupancy_le_one (h : q.queuesize ≤ q.maxsize) : q.occupancy ≤ 1 := by
  rw [occupancy, mul_one]
  exact div_le_one_of_le₀ (by exact_mod_cast h) (Nat.cast_nonneg _)

theorem occupancy_lt_one (h : q.queuesize < q.maxsize) : q.occupancy < 1 := by
  have hpos : (0 : Rat) < q.maxsize := by exact_mod_cast Nat.zero_lt_of_lt h
  rw [occupancy, mul_one, div_lt_one hpos]
  exact_mod_cast h

theorem ten_mul_le (hpos : 0 < q.maxsize) (h : q.occupancy < 1 / 10) :
    10 * q.queuesize ≤ q.maxsize := by
  have hpos' : (0 : Rat) < q.maxsize := by exact_mod_cast hpos
  rw [occupancy, mul_one, div_lt_iff₀ hpos'] at h
  have hle : (10 * q.queuesize : Rat) ≤ q.maxsize := by linarith
  exact_mod_cast hle

/-! ### One step -/

/-- A sample is taken.  If it is one that the average starts from, the queue is not full. -/
theorem inv_update (hq : q.torId = torId) (hmax : q.maxsize = maxsize) (hpos : 0 < maxsize)
    (h₀ : 0 ≤ q.regCong torId) (h₁ : q.regCong torId < 1)
    (hsize : q.queuesize = (q.enqueued.map fun p => p.pkt.size).sum)
    (hle : q.queuesize ≤ maxsize)
    (hrestart : q.regCong torId < 1 / 10 ^ 5 → q.queuesize < maxsize)
    (hstamped : ∀ p ∈ q.enqueued ++ q.sentOn, p.vxlan.ce ≤ 2 ^ CE_BITS - 1) :
    Inv torId maxsize (q.updateRegCong torId) := by
  subst hmax
  have hocc₀ := occupancy_nonneg q
  have hocc₁ := occupancy_le_one hle
  have habs : |q.regCong torId - 0| = q.regCong torId := by rw [sub_zero, abs_of_nonneg h₀]
  -- below the threshold the average starts over from the sample
  have hnew : (q.updateRegCong torId).regCong torId =
      if q.regCong torId < 1 / 10 ^ 5 then q.occupancy
      else q.regCong torId * 7 / 8 + q.occupancy * 1 / 8 := by
    show Function.update q.regCong torId _ torId = _
    rw [Function.update_self, habs]
  have hrange : 0 ≤ (q.updateRegCong torId).regCong torId ∧
      (q.updateRegCong torId).regCong torId < 1 ∧
      ((q.updateRegCong torId).regCong torId < 1 / 10 ^ 5 → q.occupancy < 1 / 10) := by
    rw [hnew]
    split_ifs with hlow
    · -- from the sample alone
      have hlt := occupancy_lt_one (hrestart hlow)
      refine ⟨hocc₀, hlt, fun h => ?_⟩
      norm_num at h ⊢
      linarith
    · -- an eighth of the sample
      refine ⟨by linarith, by linarith, fun h => ?_⟩
      norm_num at h ⊢
      linarith
  exact
    { torId_eq := hq
      maxsize_eq := rfl
      nonneg := hrange.1
      lt_one := hrange.2.1
      size_eq := hsize
      size_le := hle
      nearlyEmpty := fun h => ten_mul_le hpos (hrange.2.2 h)
      stamped := hstamped }

theorem inv_receivePacket (h : Inv torId maxsize q) (hwired : Wired torId maxsize (.arrive p))
    (hrecv : q.receivePacket p = some q') : Inv torId maxsize q' := by
  obtain ⟨heg, hsize, hhalf⟩ := hwired
  rw [receivePacket, heg, Option.map_some] at hrecv
  cases hrecv
  have hmax := h.maxsize_eq
  have hle := h.size_le
  have hempty := h.nearlyEmpty
  rw [receiveQueue]
  split_ifs with hfull
  · -- dropped: the size is what it was
    refine inv_update h.torId_eq hmax (by omega) h.nonneg h.lt_one h.size_eq hle (fun hlow => ?_)
      h.stamped
    have hten := hempty hlow
    omega
  · replace hfull : ¬ q.maxsize < q.queuesize + p.pkt.size := hfull
    refine inv_update h.torId_eq hmax (by omega) h.nonneg h.lt_one ?_ ?_ (fun hlow => ?_)
      fun p' hp' => ?_
    · show q.queuesize + p.pkt.size = _
      rw [List.map_append, List.sum_append, ← h.size_eq, List.map_singleton, List.sum_singleton]
      rfl
    · show q.queuesize + p.pkt.size ≤ maxsize
      omega
    -- a queue whose average may start over is nearly empty, so the packet does not fill it
    · have hten := hempty hlow
      show q.queuesize + p.pkt.size < maxsize
      omega
    · replace hp' : p' ∈ (q.enqueued ++ [q.stamp torId p]) ++ q.sentOn := hp'
      -- only the new packet was stamped by this arrival
      have hcases : p' = q.stamp torId p ∨ p' ∈ q.enqueued ++ q.sentOn := by
        simp only [List.mem_append, List.mem_singleton] at hp' ⊢
        tauto
      rcases hcases with rfl | hold
      · exact (egCe_eq h.nonneg h.lt_one).1
      · exact h.stamped p' hold

theorem inv_completeService (h : Inv torId maxsize q) (hdep : q.completeService = some q') :
    Inv torId maxsize q' := by
  rw [completeService] at hdep
  cases hq : q.enqueued with
  | nil =>
    rw [hq] at hdep
    cases hdep
  | cons p rest =>
    rw [hq] at hdep
    cases hdep
    -- the head is taken out of the sum
    have hsize := h.size_eq
    have hle := h.size_le
    rw [hq, List.map_cons, List.sum_cons] at hsize
    have hstamped := h.stamped
    rw [hq] at hstamped
    refine ⟨h.torId_eq, h.maxsize_eq, h.nonneg, h.lt_one, ?_, ?_, fun hlow => ?_, fun p' hp' => ?_⟩
    · show q.queuesize - p.pkt.size = (rest.map _).sum
      omega
    · show q.queuesize - p.pkt.size ≤ maxsize
      omega
    · have hten := h.nearlyEmpty hlow
      show 10 * (q.queuesize - p.pkt.size) ≤ maxsize
      omega
    · replace hp' : p' ∈ rest ++ (q.sentOn ++ [_]) := hp'
      rcases List.mem_append.mp hp' with hrest | hsent
      · exact hstamped p' (List.mem_append_left _ (List.mem_cons_of_mem _ hrest))
      · rcases List.mem_append.mp hsent with hsent | hlast
        · exact hstamped p' (List.mem_append_right _ hsent)
        · rw [List.mem_singleton.mp hlast]
          exact hstamped p (List.mem_append_left _ List.mem_cons_self)

/-- For every core queue wired as in the testbed, and every sequence of arrivals, drops and
    departures. -/
theorem ce_in_range (coreId torId bitrate maxsize : Nat) (acts : List Act)
    (hwired : ∀ a ∈ acts, Wired torId maxsize a) :
    system.Always CeInRange (new coreId torId bitrate maxsize) acts := by
  refine Lts.always_of_along (I := Inv torId maxsize) (G := fun _ a => Wired torId maxsize a)
    (fun q a q' h hw hstep => ?_) (fun q h => h.ceInRange) (inv_new coreId torId bitrate maxsize)
    (Lts.along_of_forall_mem hwired)
  cases a with
  | arrive p => exact inv_receivePacket h hw hstep
  | depart => exact inv_completeService h hstep

/-- The route of a packet behind its core: the pipe and the ToR. -/
def toTor (size id : Nat) : CorePkt :=
  ⟨⟨0, size, id, false⟩, [.qCoreToR 0 1, .pCoreToR 0 1, .tor 1], 1, ⟨0, 1, 0, 0, 0, 0⟩, false⟩

/-- The queue is filled up, and a third packet is dropped. -/
theorem ce_in_range_full :
    system.Always CeInRange (new 0 1 10000000000 3000)
      [.arrive (toTor 1500 0), .arrive (toTor 1500 1), .arrive (toTor 1 2), .depart] :=
  ce_in_range 0 1 10000000000 3000 _ (by decide)

end Range

/-! ## The queue of the testbed -/

section Testbed

variable {q q' : CoreQueue} {p : CorePkt}

/-- In every run of the testbed a packet that reaches the queue from a core to a ToR has this
    ToR behind its next hop. -/
theorem egPort_testbed (endhostQ : Bool) (rand : Nat → Nat → Nat) (acts : List Testbed.Act) :
    Testbed.system.Always
      (fun s => ∀ p, s.Handles p → ∀ core leaf,
        (s.route p)[p.nexthop]? = some (.qCoreToR core leaf) →
        ∀ c : CorePkt, c.route = s.route p → c.nexthop = p.nexthop + 1 → c.egPort = some leaf)
      (Testbed.built endhostQ fun leaf l => rand leaf l % Testbed.N_CORE) acts := by
  refine Lts.always_of_along (fun s a t h _ hstep => Testbed.indexed_step s a t h hstep)
    (fun s h p hhandles core leaf hhop c hroute hnext => ?_)
    ⟨Testbed.wf_built endhostQ _, Testbed.indexed_built endhostQ rand⟩
    (Lts.along_of_forall_mem (P := fun _ => True) fun _ _ => trivial)
  have hguided := (Testbed.shaped_of_indexed h.1 h.2).packets p hhandles
  have hwf : Testbed.PktWf s p := by
    rcases hhandles with hp | ⟨flow, hf, rev, size, old, rfl⟩
    · exact h.1.pkts p hp
    · exact (Testbed.pktWf_new hf rev size old).1
  have hleaf : leaf = (s.specOf p).dstLeaf p.rev := by
    cases Testbed.nextHop h.1 hwf hhop with
    | plain hplain => exact absurd rfl (hplain.2 core leaf)
    | coreQueue => rfl
  have htor := (hguided.egress core leaf hhop).1
  rw [CorePkt.egPort, hroute, hnext, htor, hleaf]

/-- The queue is the plain one, as far as the plain one goes. -/
structure IsFifo (q : CoreQueue) (f : FifoQueue) : Prop where
  enqueued : f.enqueued = q.enqueued.map CorePkt.pkt
  queuesize : f.queuesize = q.queuesize
  sentOn : f.sentOn = q.sentOn.map CorePkt.pkt

/-- With up to `2^63` bytes no sum of sizes wraps. -/
theorem receiveQueue_fifo {cfg : QueueCfg} {f : FifoQueue} (hcfg : cfg.maxsize = q.maxsize)
    (hmax : q.maxsize ≤ 2 ^ 63) (hle : q.queuesize ≤ q.maxsize) (hhalf : 2 * p.pkt.size ≤ q.maxsize)
    (h : IsFifo q f) (now : Nat) :
    ∃ f' times, FifoQueue.receivePacket cfg now p.pkt f = some (f', times) ∧
      IsFifo (q.receiveQueue p) f' := by
  obtain ⟨henq, hsize, hsent⟩ := h
  have hfits : f.queuesize + p.pkt.size < 2 ^ 64 := by omega
  simp only [FifoQueue.receivePacket, receiveQueue]
  rw [if_neg (by omega), Nat.mod_eq_of_lt hfits, hcfg, hsize]
  split_ifs
  · exact ⟨_, _, rfl, henq, rfl, hsent⟩
  · refine ⟨_, _, rfl, ?_, rfl, hsent⟩
    rw [List.map_append, ← henq]
    rfl
  · refine ⟨_, _, rfl, ?_, rfl, hsent⟩
    rw [List.map_append, ← henq]
    rfl

theorem completeService_fifo {cfg : QueueCfg} {f : FifoQueue} {maxsize : Nat}
    (hrate : cfg.bitrate = q.bitrate) (hmax : maxsize ≤ 2 ^ 63) (hle : q.queuesize ≤ maxsize)
    (hsize : q.queuesize = (q.enqueued.map fun p => p.pkt.size).sum) (h : IsFifo q f)
    (hdep : q.completeService = some q') (now : Nat) :
    ∃ f' times, FifoQueue.doNextEvent cfg now f = some (f', times) ∧ IsFifo q' f' := by
  obtain ⟨henq, hfsize, hsent⟩ := h
  rw [completeService] at hdep
  cases hq : q.enqueued with
  | nil =>
    rw [hq] at hdep
    cases hdep
  | cons p rest =>
    rw [hq] at hdep henq hsize
    cases hdep
    rw [List.map_cons, List.sum_cons] at hsize
    have hsub : (f.queuesize + 2 ^ 64 - p.pkt.size) % 2 ^ 64 = q.queuesize - p.pkt.size := by
      omega
    simp only [FifoQueue.doNextEvent, henq, List.map_cons]
    refine ⟨_, _, rfl, rfl, hsub, ?_⟩
    rw [hsub, hsent, hrate, List.map_append]
    rfl

end Testbed

end CoreQueue
end Conga
end DatacenterNetworking
