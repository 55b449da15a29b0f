/-
  DatacenterNetworking.Htsim.StocLedger

  The representation of `StocFairQueue`: which queues are active, how many bytes and
  packets there are, and what the front queue is owed.  The decision that a packet may
  be sent is taken in `beginService` and paid for in `completeService`; an arrival in
  between makes other queues active, and touches neither the front queue's credit nor
  the packet at its back.

  `_Qsize` is the exception.  It has 32 bits, `_queuesize` and `_maxsize` have 64, and
  with 2^32 bytes in one FIFO queue it wraps.  `_queuesize` wraps only after that: there
  are fewer than 2^32 FIFO queues.
-/

import DatacenterNetworking.Htsim.StocRotation

namespace DatacenterNetworking
namespace Htsim
namespace StocFairQueue

/-- Bytes of the packets in a FIFO queue. -/
def bytesIn (l : List Packet) : Nat := (l.map Packet.size).sum

@[simp] theorem bytesIn_nil : bytesIn [] = 0 := rfl

@[simp] theorem bytesIn_cons (p : Packet) (l : List Packet) :
    bytesIn (p :: l) = p.size + bytesIn l := rfl

theorem bytesIn_dropLast {l : List Packet} {p : Packet} (h : l.getLast? = some p) :
    bytesIn l = bytesIn l.dropLast + p.size := by
  obtain ⟨init, rfl⟩ := List.getLast?_eq_some_iff.mp h
  rw [List.dropLast_concat, bytesIn, bytesIn, List.map_append, List.sum_append]
  rfl

/-- What the queue should know of itself between handler calls, for packets of 1 to `M`
    bytes. -/
structure Represented (M : Nat) (q : StocFairQueue) : Prop where
  nodup : q.activeQ.Nodup
  active : ∀ i, (i ∈ q.activeQ ↔ q.packets i ≠ []) ∧ (q.isActive i = true ↔ q.packets i ≠ [])
  lt : ∀ i, q.packets i ≠ [] → i < q.nQueue
  Qsize : ∀ i, q.Qsize i = bytesIn (q.packets i)
  queuesize : q.queuesize = ∑ i ∈ Finset.range q.nQueue, bytesIn (q.packets i)
  nPackets : q.nPackets = ∑ i ∈ Finset.range q.nQueue, (q.packets i).length
  credits : ∀ i ∈ q.activeQ, q.credits i < q.quantum + M
  pending : q.pending = if 0 < q.nPackets then 1 else 0
  ready : Ready q

/-- The invariant: `_Qsize` is right modulo 2^32, and `_queuesize` modulo 2^64. -/
structure Rep (M quantum : Nat) (q : StocFairQueue) : Prop where
  kept : Kept quantum q
  sizes : ∀ i, ∀ p ∈ q.packets i, 1 ≤ p.size ∧ p.size ≤ M
  Qsize : ∀ i, q.Qsize i = bytesIn (q.packets i) % 2 ^ 32
  queuesize : q.queuesize = (∑ i ∈ Finset.range q.nQueue, bytesIn (q.packets i)) % 2 ^ 64
  credits_lt : ∀ i ∈ q.activeQ, q.credits i < q.quantum + M
  nQueue_lt : q.nQueue < 2 ^ 32

/-- The invariant between handler calls. -/
structure Steady (M quantum : Nat) (q : StocFairQueue) : Prop where
  rep : Rep M quantum q
  ready : Ready q
  pending : q.pending = if 0 < q.nPackets then 1 else 0

/-- Fewer than 2^32 FIFO queues of fewer than 2^32 bytes hold fewer than 2^64. -/
theorem Rep.sum_lt {M quantum : Nat} {q : StocFairQueue} (h : Rep M quantum q)
    (hsmall : ∀ i, bytesIn (q.packets i) < 2 ^ 32) :
    ∑ i ∈ Finset.range q.nQueue, bytesIn (q.packets i) < 2 ^ 64 := by
  have hle : ∑ i ∈ Finset.range q.nQueue, bytesIn (q.packets i) ≤
      (Finset.range q.nQueue).card • (2 ^ 32 - 1) :=
    Finset.sum_le_card_nsmul _ _ _ fun i _ => Nat.le_sub_one_of_lt (hsmall i)
  rw [Finset.card_range, nsmul_eq_mul, Nat.cast_id] at hle
  have hlt := h.nQueue_lt
  omega

/-- Under the invariant it is only `_Qsize` that can be wrong. -/
theorem Steady.represented_iff {M quantum : Nat} {q : StocFairQueue} (h : Steady M quantum q) :
    Represented M q ↔ ∀ i, bytesIn (q.packets i) < 2 ^ 32 := by
  have hl := h.rep.kept.listed
  constructor
  · intro hrep i
    rw [← hrep.Qsize i, h.rep.Qsize i]
    exact Nat.mod_lt _ (Nat.two_pow_pos 32)
  · intro hsmall
    exact
      { nodup := hl.nodup
        active := fun i => ⟨hl.mem_iff i, hl.isActive i⟩
        lt := fun i hi => hl.lt i ((hl.mem_iff i).mpr hi)
        Qsize := fun i => by rw [h.rep.Qsize i, Nat.mod_eq_of_lt (hsmall i)]
        queuesize := by rw [h.rep.queuesize, Nat.mod_eq_of_lt (h.rep.sum_lt hsmall)]
        nPackets := hl.total
        credits := h.rep.credits_lt
        pending := h.pending
        ready := h.ready }

variable {M quantum : Nat} {q q' : StocFairQueue}

/-! ## The parts of a handler call -/

theorem store_bytes (q : StocFairQueue) (pkt : Packet) :
    (q.store pkt).Qsize =
        Function.update q.Qsize (q.queueOf pkt) ((q.Qsize (q.queueOf pkt) + pkt.size) % 2 ^ 32) ∧
      (q.store pkt).queuesize = Word.add 64 q.queuesize pkt.size := by
  simp only [store]
  split_ifs
  · exact ⟨rfl, rfl⟩
  · exact ⟨rfl, rfl⟩

theorem Rep.store (h : Rep M quantum q) {pkt : Packet} (hsize : 1 ≤ pkt.size ∧ pkt.size ≤ M) :
    Rep M quantum (q.store pkt) := by
  obtain ⟨hQsize, hbytes⟩ := store_bytes q pkt
  obtain ⟨-, hquantum, hnq, -⟩ := @store_fields q pkt
  have hk := @queueOf_lt q pkt h.kept.listed
  refine
    { kept := h.kept.store pkt
      sizes := sizes_store h.sizes hsize
      Qsize := fun i => ?_
      queuesize := ?_
      credits_lt := ?_
      nQueue_lt := by rw [hnq]; exact h.nQueue_lt }
  · rw [hQsize, packets_store]
    by_cases hi : i = q.queueOf pkt
    · rw [hi, Function.update_self, Function.update_self, h.Qsize, Nat.mod_add_mod, bytesIn_cons,
        Nat.add_comm]
    · rw [Function.update_of_ne hi, Function.update_of_ne hi]
      exact h.Qsize i
  · have hsum := sum_update hk bytesIn q.packets (pkt :: q.packets (q.queueOf pkt))
    rw [bytesIn_cons] at hsum
    rw [hbytes, hnq, packets_store, h.queuesize, Word.add_mod]
    congr 1
    omega
  · rw [hquantum]
    exact credits_store_lt h.kept.listed h.credits_lt (hsize.1.trans hsize.2)

/-- A packet that is paid for leaves. -/
theorem Rep.dequeue {k : Nat} {rest : List Nat} {p : Packet} (h : Rep M quantum q)
    (hact : q.activeQ = k :: rest) (hback : (q.packets k).getLast? = some p)
    (hpaid : p.size ≤ q.credits k) (hkept : Kept quantum ((q.dequeue k p).deactivate k)) :
    Rep M quantum ((q.dequeue k p).deactivate k) := by
  obtain ⟨hpkts, -, hquantum, hnq, -⟩ := deactivate_fields (q.dequeue k p) k
  have hbytes := bytesIn_dropLast hback
  -- leaving the list changes no byte count
  have hrest : ((q.dequeue k p).deactivate k).Qsize = (q.dequeue k p).Qsize ∧
      ((q.dequeue k p).deactivate k).queuesize = (q.dequeue k p).queuesize := by
    simp only [deactivate]
    split_ifs
    · exact ⟨rfl, rfl⟩
    · exact ⟨rfl, rfl⟩
  have hk : k < q.nQueue := h.kept.listed.lt k (by rw [hact]; exact List.mem_cons_self)
  refine
    { kept := hkept
      sizes := sizes_dequeue h.sizes p
      Qsize := fun i => ?_
      queuesize := ?_
      credits_lt := ?_
      nQueue_lt := by rw [hnq]; exact h.nQueue_lt }
  · rw [hrest.1, hpkts]
    show Function.update q.Qsize k (sub32 (q.Qsize k) p.size) i =
      bytesIn (Function.update q.packets k (q.packets k).dropLast i) % 2 ^ 32
    by_cases hi : i = k
    · rw [hi, Function.update_self, Function.update_self, h.Qsize k, sub32, hbytes]
      omega
    · rw [Function.update_of_ne hi, Function.update_of_ne hi]
      exact h.Qsize i
  · rw [hrest.2, hnq, hpkts]
    show Word.sub 64 q.queuesize p.size =
      (∑ i ∈ Finset.range q.nQueue,
        bytesIn (Function.update q.packets k (q.packets k).dropLast i)) % 2 ^ 64
    have hsum := sum_update hk bytesIn q.packets (q.packets k).dropLast
    rw [h.queuesize, Word.sub_mod (by omega)]
    congr 1
    omega
  · rw [hquantum]
    refine credits_dequeue_lt h.kept.listed hact h.credits_lt ?_
    show Function.update q.credits k (sub32 (q.credits k) p.size) k ≤ q.credits k
    rw [Function.update_self, sub32_of_le hpaid (h.kept.words.credits k)]
    exact Nat.sub_le _ _

/-- A bump adds a quantum at most to a credit below the size of a packet. -/
theorem Rep.settled {n : Nat} {bumps : Nat → Nat} (h : Rep M quantum q)
    (hsettled : Settled q q' n bumps) : Rep M quantum q' := by
  have hkept := h.kept.settled hsettled
  have heq := hsettled.eq
  -- the last quantum of a queue was granted because it could not pay for its front packet
  have hcredits : ∀ i ∈ q.activeQ, q.afterQuanta i (bumps i) < q.quantum + M := by
    intro i hi
    cases hb : bumps i with
    | zero =>
      rw [h.kept.words.afterQuanta_zero]
      exact h.credits_lt i hi
    | succ m =>
      obtain ⟨-, p, hp, hshort⟩ := hsettled.short i m (by omega)
      have hM := (h.sizes i p (List.mem_of_getLast? hp)).2
      have hgrant : q.afterQuanta i (m + 1) ≤ q.afterQuanta i m + q.quantum := by
        rw [afterQuanta, afterQuanta, Nat.succ_mul, ← Nat.add_assoc, ← Nat.mod_add_mod]
        exact Nat.mod_le _ _
      omega
  subst heq
  exact
    { kept := hkept
      sizes := h.sizes
      Qsize := h.Qsize
      queuesize := h.queuesize
      credits_lt := fun i hi => hcredits i (List.mem_rotate.mp hi)
      nQueue_lt := h.nQueue_lt }

theorem Settled.ready {n : Nat} {bumps : Nat → Nat} (h : Settled q q' n bumps) : Ready q' := by
  obtain ⟨i, p, hhead, hp, hpay⟩ := h.front
  intro j hj x hx
  rw [hhead] at hj
  cases hj
  rw [hp] at hx
  cases hx
  exact hpay

/-- `beginService` when it returns; it leaves the packets. -/
theorem Rep.beginService {fuel : Nat} (h : Rep M quantum q) (hidle : q.pending = 0)
    (hbegin : q.beginService fuel = some q') : Steady M quantum q' ∧ q'.packets = q.packets := by
  unfold StocFairQueue.beginService at hbegin
  by_cases hn : 0 < q.nPackets
  · rw [if_pos hn] at hbegin
    obtain ⟨r, hrot, rfl⟩ := Option.map_eq_some_iff.mp hbegin
    obtain ⟨n, bumps, hsettled⟩ := rotate_settles fuel h.kept.words hrot
    have hr := h.settled hsettled
    have hready := hsettled.ready
    have heq := hsettled.eq
    refine ⟨⟨?_, hready, ?_⟩, ?_⟩
    · exact
        { kept := ⟨{ hr.kept.listed with }, { hr.kept.words with }, hr.kept.quantum_eq⟩
          sizes := hr.sizes
          Qsize := hr.Qsize
          queuesize := hr.queuesize
          credits_lt := hr.credits_lt
          nQueue_lt := hr.nQueue_lt }
    · show r.pending + 1 = if 0 < r.nPackets then 1 else 0
      rw [heq]
      show q.pending + 1 = if 0 < q.nPackets then 1 else 0
      rw [if_pos hn, hidle]
    · show r.packets = q.packets
      rw [heq]
  -- nothing is held, so there is nothing to rotate
  · rw [if_neg hn] at hbegin
    cases hbegin
    have hnil : q.activeQ = [] := h.kept.listed.nPackets_eq_zero.mp (by omega)
    refine ⟨⟨h, fun i hi => ?_, by rw [if_neg hn, hidle]⟩, rfl⟩
    rw [hnil] at hi
    cases hi

/-! ## Handler calls -/

theorem Steady.receivePacket {fuel : Nat} {pkt : Packet} (h : Steady M quantum q)
    (hsize : 1 ≤ pkt.size ∧ pkt.size ≤ M) (hrecv : q.receivePacket fuel pkt = some q') :
    Steady M quantum q' ∧
      q'.packets = if q.maxsize < Word.add 64 q.queuesize pkt.size then q.packets
        else (q.store pkt).packets := by
  obtain ⟨hn, -, -, hpend⟩ := @store_fields q pkt
  have hpending := h.pending
  have hrep := h.rep.store hsize
  unfold StocFairQueue.receivePacket at hrecv
  by_cases hfull : q.maxsize < Word.add 64 q.queuesize pkt.size
  · rw [if_pos hfull] at hrecv ⊢
    cases hrecv
    exact ⟨h, rfl⟩
  · rw [if_neg hfull] at hrecv ⊢
    by_cases hempty : q.nPackets = 0
    · rw [if_pos hempty] at hrecv
      rw [hempty] at hpending
      exact hrep.beginService (hpend.trans hpending) hrecv
    · rw [if_neg hempty] at hrecv
      cases hrecv
      refine ⟨⟨hrep, ready_store h.rep.kept.listed h.ready hempty, ?_⟩, rfl⟩
      rw [hpend, hpending, hn, if_pos (Nat.pos_of_ne_zero hempty), if_pos (Nat.succ_pos _)]

theorem Steady.completeService {fuel : Nat} {l : List (Nat × Packet)} (h : Steady M quantum q)
    (hcomp : q.completeService fuel = some (q', l)) :
    Steady M quantum q' ∧ ∃ k p, (q.packets k).getLast? = some p ∧
      q'.packets = Function.update q.packets k (q.packets k).dropLast := by
  obtain ⟨r, hfin, hrest⟩ := Option.bind_eq_some_iff.mp hcomp
  obtain ⟨r', hbegin, heq⟩ := Option.map_eq_some_iff.mp hrest
  cases heq
  obtain ⟨hpend, -, k, rest, p, hact, hback, hr⟩ := finishService_eq_some hfin
  have hpaid : p.size ≤ q.credits k :=
    h.ready k (by rw [hact]; rfl) p (by rw [hback]; rfl)
  have hkept := h.rep.kept.finishService hfin
  obtain ⟨hpkts, -, -, -, hpend'⟩ := deactivate_fields (q.dequeue k p) k
  rw [hr] at hbegin hkept
  have hidle : ((q.dequeue k p).deactivate k).pending = 0 := by
    have hpending := h.pending
    rw [hpend']
    show q.pending - 1 = 0
    split_ifs at hpending
    · omega
    · omega
  obtain ⟨hsteady, hpackets⟩ := (h.rep.dequeue hact hback hpaid hkept).beginService hidle hbegin
  exact ⟨hsteady, k, p, hback, hpackets.trans hpkts⟩

/-- Where a packet is accepted its FIFO queue stays below 2^32 bytes. -/
def Roomy (s : State) : Act → Prop
  | .arrive pkt => Word.add 64 s.q.queuesize pkt.size ≤ s.q.maxsize →
      bytesIn (s.q.packets (s.q.queueOf pkt)) + pkt.size < 2 ^ 32
  | .complete => True

theorem steady_step {fuel : Nat} {s t : State} {a : Act} (h : Steady M quantum s.q)
    (ha : SizedBy M a) (hstep : (system fuel).step s a = some t) : Steady M quantum t.q := by
  obtain ⟨⟨q', l⟩, hr, rfl⟩ := Option.map_eq_some_iff.mp hstep
  cases a with
  | arrive pkt =>
    obtain ⟨r, hrecv, heq⟩ := Option.map_eq_some_iff.mp hr
    cases heq
    exact (h.receivePacket (ha pkt rfl) hrecv).1
  | complete => exact (h.completeService hr).1

/-- A step keeps all FIFO queues below 2^32 bytes exactly if it is roomy. -/
theorem small_step_iff {fuel : Nat} {s t : State} {a : Act} (h : Steady M quantum s.q)
    (hsmall : ∀ i, bytesIn (s.q.packets i) < 2 ^ 32) (ha : SizedBy M a)
    (hstep : (system fuel).step s a = some t) :
    (∀ i, bytesIn (t.q.packets i) < 2 ^ 32) ↔ Roomy s a := by
  obtain ⟨⟨q', l⟩, hr, rfl⟩ := Option.map_eq_some_iff.mp hstep
  -- only an accepted arrival adds bytes, and it adds them to one queue
  cases a with
  | arrive pkt =>
    obtain ⟨r, hrecv, heq⟩ := Option.map_eq_some_iff.mp hr
    cases heq
    have hpkts := (h.receivePacket (ha pkt rfl) hrecv).2
    show (∀ i, bytesIn (q'.packets i) < _) ↔ _
    rw [hpkts]
    split_ifs with hfull
    · exact iff_of_true hsmall fun hfits => absurd hfits (not_le.mpr hfull)
    · rw [packets_store]
      constructor
      · intro hall _
        have hself := hall (s.q.queueOf pkt)
        rw [Function.update_self, bytesIn_cons, Nat.add_comm] at hself
        exact hself
      · intro hroomy i
        by_cases hi : i = s.q.queueOf pkt
        · rw [hi, Function.update_self, bytesIn_cons, Nat.add_comm]
          exact hroomy (not_lt.mp hfull)
        · rw [Function.update_of_ne hi]
          exact hsmall i
  | complete =>
    obtain ⟨-, k, p, hback, hpkts⟩ := h.completeService hr
    refine iff_of_true (fun i => ?_) trivial
    show bytesIn (q'.packets i) < _
    rw [hpkts]
    by_cases hi : i = k
    · have hless := bytesIn_dropLast hback
      have hk := hsmall k
      rw [hi, Function.update_self]
      omega
    · rw [Function.update_of_ne hi]
      exact hsmall i

/-- The queue knows itself in every state of a run exactly if no packet is accepted into a
    FIFO queue that then has 2^32 bytes. -/
theorem represented_iff_roomy (fuel bitrate maxsize nQueue quantum M : Nat)
    (hqueue : 1 ≤ nQueue) (hqueues : nQueue < 2 ^ 32) (hword : quantum < 2 ^ 32) (as : List Act)
    (hsized : ∀ a ∈ as, SizedBy M a) :
    (system fuel).Always (fun s => Represented M s.q) (init bitrate maxsize nQueue quantum) as ↔
      (system fuel).Along Roomy (init bitrate maxsize nQueue quantum) as := by
  have hinit : Steady M quantum (init bitrate maxsize nQueue quantum).q :=
    { rep :=
        { kept := ⟨listed_new hqueue, ⟨fun _ => Nat.two_pow_pos 32, hword⟩, rfl⟩
          sizes := fun _ _ hp => absurd hp List.not_mem_nil
          Qsize := fun _ => rfl
          queuesize := by simp [init, new]
          credits_lt := fun _ hi => absurd hi List.not_mem_nil
          nQueue_lt := hqueues }
      ready := fun _ hi => by cases hi
      pending := rfl }
  refine Lts.always_iff_along_of_along (J := fun s => Steady M quantum s.q)
    (H := fun _ a => SizedBy M a) (fun s a t hs ha hstep => steady_step hs ha hstep)
    (fun s a t hs hrep ha hstep => ?_) as hinit ?_ (Lts.along_of_forall_mem hsized)
  · rw [(steady_step hs ha hstep).represented_iff]
    exact small_step_iff hs (hs.represented_iff.mp hrep) ha hstep
  · exact hinit.represented_iff.mpr fun _ => Nat.two_pow_pos 32

/-- Three packets in two FIFO queues. -/
theorem represented_iff_roomy_three :
    (system 20).Always (fun s => Represented 1500 s.q) (init 1000 10000 2 500)
        [.arrive ⟨0, 300, 1, false⟩, .arrive ⟨0, 1500, 2, false⟩, .arrive ⟨1, 1400, 1, false⟩,
          .complete] ↔
      (system 20).Along Roomy (init 1000 10000 2 500)
        [.arrive ⟨0, 300, 1, false⟩, .arrive ⟨0, 1500, 2, false⟩, .arrive ⟨1, 1400, 1, false⟩,
          .complete] := by
  refine represented_iff_roomy 20 1000 10000 2 500 1500 (by decide) (by decide) (by decide) _ ?_
  intro a ha pkt hpkt
  subst hpkt
  simp only [List.mem_cons, Act.arrive.injEq, reduceCtorEq, or_false, List.not_mem_nil] at ha
  rcases ha with rfl | rfl | rfl <;> decide

/-- Packets of 2^31 - 1, 2^31 - 1 and 2 bytes, for one FIFO queue. -/
def wrapping : List Act :=
  [.arrive ⟨1, 2147483647, 1, false⟩, .arrive ⟨1, 2147483647, 2, false⟩,
    .arrive ⟨1, 2, 3, false⟩]

/-- `_Qsize` is then 0. -/
theorem represented_wraps :
    (∀ a ∈ wrapping, SizedBy 2147483647 a) ∧
      ¬ (system 2).Always (fun s => Represented 2147483647 s.q)
        (init 1000 10000000000 1 2147483648) wrapping := by
  refine ⟨fun a ha pkt hpkt => ?_, fun hall => ?_⟩
  · subst hpkt
    simp only [wrapping, List.mem_cons, Act.arrive.injEq, List.not_mem_nil, or_false] at ha
    rcases ha with rfl | rfl | rfl <;> decide
  · have hwrong : ((system 2).run (init 1000 10000000000 1 2147483648) wrapping).map
        (fun s => decide (s.q.Qsize 0 = bytesIn (s.q.packets 0))) = some false := by
      decide +kernel
    obtain ⟨s, hrun, hne⟩ := Option.map_eq_some_iff.mp hwrong
    exact of_decide_eq_false hne ((hall.last hrun).Qsize 0)

end StocFairQueue
end Htsim
end DatacenterNetworking
