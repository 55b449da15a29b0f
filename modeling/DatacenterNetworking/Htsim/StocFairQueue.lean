/-
  DatacenterNetworking.Htsim.StocFairQueue

  `StocFairQueue` (`stoc-fairqueue.cpp`): deficit round robin over FIFO queues
  that flows are hashed to.  `_credits` and `_Qsize` are 32-bit and wrap.

  The loop of `beginService` takes fuel.  `rotate_isSome` shows that
  `nQueue * M + 1` rounds are enough when no packet is larger than `M` and the
  credits do not wrap.

  The fairness argument follows two queues `i` and `j` that stay non-empty: what
  was completed from `i` less what was completed from `j` moves against
  `balance i j`, the difference of their credits less a quantum while `j` is
  ahead of `i` in the active list.  A rotation of the list leaves it unchanged.
-/

import DatacenterNetworking.Htsim.Queue
import DatacenterNetworking.Lib.Holdings
import DatacenterNetworking.Lib.Lts
import DatacenterNetworking.Lib.Word
import Mathlib.Algebra.BigOperators.Group.Finset.Basic
import Mathlib.Algebra.Order.BigOperators.Group.Finset

namespace DatacenterNetworking
namespace Htsim

/-- `StocFairQueue`.  The vectors are indexed by FIFO queue; the front of a FIFO is its
    newest packet, its back the next to be served.  `pending` counts the completion events
    registered. -/
structure StocFairQueue where
  bitrate : Nat
  maxsize : Nat
  queuesize : Nat
  nQueue : Nat
  nPackets : Nat
  quantum : Nat
  packets : Nat → List Packet
  credits : Nat → Nat
  Qsize : Nat → Nat
  isActive : Nat → Bool
  activeQ : List Nat
  pending : Nat

namespace StocFairQueue

/-- The constructor. -/
def new (bitrate maxsize nQueue quantum : Nat) : StocFairQueue where
  bitrate := bitrate
  maxsize := maxsize
  queuesize := 0
  nQueue := nQueue
  nPackets := 0
  quantum := quantum
  packets := fun _ => []
  credits := fun _ => 0
  Qsize := fun _ => 0
  isActive := fun _ => false
  activeQ := []
  pending := 0

/-- `StocFairQueue::hashFlow`. -/
def hashFlow (index flowid : Nat) : Nat :=
  let prime :=
    match index with
    | 0 => 7643
    | 1 => 7723
    | 2 => 7829
    | 3 => 7919
    | _ => 1
  prime * flowid

/-- The FIFO queue a packet goes to. -/
def queueOf (q : StocFairQueue) (pkt : Packet) : Nat := hashFlow 0 pkt.flow % q.nQueue

/-- Subtraction on `uint32_t`. -/
def sub32 (a b : Nat) : Nat := (a + 2 ^ 32 - b % 2 ^ 32) % 2 ^ 32

/-- Not enough credit: the front queue goes to the back and is granted a quantum. -/
def bump (q : StocFairQueue) (queue : Nat) (rest : List Nat) : StocFairQueue :=
  { q with
    activeQ := rest ++ [queue]
    credits := Function.update q.credits queue ((q.credits queue + q.quantum) % 2 ^ 32) }

/-- The loop of `beginService`; `none` when out of fuel or on an empty list. -/
def rotate : Nat → StocFairQueue → Option StocFairQueue
  | 0, _ => none
  | fuel + 1, q =>
      match q.activeQ with
      | [] => none
      | queue :: rest =>
          match (q.packets queue).getLast? with
          | none => none
          | some p =>
              -- the loop stops at the first queue whose credit covers its next packet
              if q.credits queue < p.size then rotate fuel (q.bump queue rest) else some q

/-- `StocFairQueue::beginService`. -/
def beginService (fuel : Nat) (q : StocFairQueue) : Option StocFairQueue :=
  if 0 < q.nPackets then
    (rotate fuel q).map fun q' => { q' with pending := q'.pending + 1 }
  else some q

/-- Dequeue and book-keeping of `completeService`. -/
def dequeue (q : StocFairQueue) (queue : Nat) (pkt : Packet) : StocFairQueue :=
  { q with
    packets := Function.update q.packets queue (q.packets queue).dropLast
    credits := Function.update q.credits queue (sub32 (q.credits queue) pkt.size)
    Qsize := Function.update q.Qsize queue (sub32 (q.Qsize queue) pkt.size)
    queuesize := Word.sub 64 q.queuesize pkt.size
    nPackets := q.nPackets - 1
    pending := q.pending - 1 }

/-- An emptied queue leaves the active list. -/
def deactivate (q : StocFairQueue) (queue : Nat) : StocFairQueue :=
  if (q.packets queue).isEmpty then
    { q with
      isActive := Function.update q.isActive queue false
      activeQ := q.activeQ.tail
      credits := Function.update q.credits queue 0 }
  else q

/-- `StocFairQueue::completeService` up to its call of `beginService`, with the FIFO queue
    served and the packet that departs.  There is nothing to complete unless a completion
    event was registered. -/
def finishService (q : StocFairQueue) : Option (StocFairQueue × Nat × Packet) :=
  if q.pending = 0 ∨ q.nPackets = 0 then none
  else match q.activeQ with
    | [] => none
    | queue :: _ =>
        match (q.packets queue).getLast? with
        | none => none
        | some pkt =>
            let q' := (q.dequeue queue pkt).deactivate queue
            some (q', queue, applyEcnMark q'.bitrate q'.queuesize pkt)

/-- `StocFairQueue::completeService`. -/
def completeService (fuel : Nat) (q : StocFairQueue) :
    Option (StocFairQueue × List (Nat × Packet)) :=
  q.finishService.bind fun r => (r.1.beginService fuel).map fun q' => (q', [r.2])

/-- Enqueue, and make the FIFO queue active if it was not. -/
def store (q : StocFairQueue) (pkt : Packet) : StocFairQueue :=
  let queue := q.queueOf pkt
  let q' := { q with
    packets := Function.update q.packets queue (pkt :: q.packets queue)
    Qsize := Function.update q.Qsize queue ((q.Qsize queue + pkt.size) % 2 ^ 32)
    queuesize := Word.add 64 q.queuesize pkt.size
    nPackets := q.nPackets + 1 }
  if q.isActive queue then q'
  else
    { q' with
      isActive := Function.update q.isActive queue true
      activeQ := q.activeQ ++ [queue]
      credits := Function.update q.credits queue q.quantum }

/-- `StocFairQueue::receivePacket`. -/
def receivePacket (fuel : Nat) (q : StocFairQueue) (pkt : Packet) : Option StocFairQueue :=
  if q.maxsize < Word.add 64 q.queuesize pkt.size then some q
  else if q.nPackets = 0 then (q.store pkt).beginService fuel
  else some (q.store pkt)

/-! ## The queue as a system -/

/-- What drives the queue: a packet arrives, or a completion event fires. -/
inductive Act where
  | arrive (pkt : Packet)
  | complete

/-- The queue with what was completed so far: FIFO queue and packet, in order. -/
structure State where
  q : StocFairQueue
  completed : List (Nat × Packet)

/-- One handler call. -/
def handle (fuel : Nat) (q : StocFairQueue) :
    Act → Option (StocFairQueue × List (Nat × Packet))
  | .arrive pkt => (q.receivePacket fuel pkt).map fun q' => (q', [])
  | .complete => q.completeService fuel

/-- The queue under any sequence of arrivals and completions. -/
def system (fuel : Nat) : Lts State Act where
  step s a := (s.q.handle fuel a).map fun r => { q := r.1, completed := s.completed ++ r.2 }

/-- The system as constructed. -/
def init (bitrate maxsize nQueue quantum : Nat) : State :=
  { q := new bitrate maxsize nQueue quantum, completed := [] }

/-- Bytes completed from FIFO queue `i`. -/
def bytesFrom (i : Nat) (l : List (Nat × Packet)) : Nat :=
  ((l.filter fun e => e.1 = i).map fun e => e.2.size).sum

@[simp] theorem bytesFrom_nil (i : Nat) : bytesFrom i [] = 0 := rfl

theorem bytesFrom_append (i : Nat) (l m : List (Nat × Packet)) :
    bytesFrom i (l ++ m) = bytesFrom i l + bytesFrom i m := by
  simp [bytesFrom]

theorem bytesFrom_singleton (i : Nat) (e : Nat × Packet) :
    bytesFrom i [e] = if e.1 = i then e.2.size else 0 := by
  by_cases h : e.1 = i
  · simp [bytesFrom, h]
  · simp [bytesFrom, h]

/-! ## The invariant -/

/-- The lists: the active queues are those that hold a packet, each listed once, and all
    packets are counted. -/
structure Listed (q : StocFairQueue) : Prop where
  nQueue_pos : 1 ≤ q.nQueue
  nodup : q.activeQ.Nodup
  mem_iff : ∀ i, i ∈ q.activeQ ↔ q.packets i ≠ []
  isActive : ∀ i, q.isActive i = true ↔ q.packets i ≠ []
  lt : ∀ i ∈ q.activeQ, i < q.nQueue
  total : q.nPackets = ∑ i ∈ Finset.range q.nQueue, (q.packets i).length

/-- The invariant of the queue, for packets of at most `M` bytes. -/
structure Wf (M : Nat) (q : StocFairQueue) : Prop where
  nowrap : q.quantum + M ≤ 2 ^ 32
  nQueue_pos : 1 ≤ q.nQueue
  sizes : ∀ i, ∀ p ∈ q.packets i, 1 ≤ p.size ∧ p.size ≤ M
  nodup : q.activeQ.Nodup
  mem_iff : ∀ i, i ∈ q.activeQ ↔ q.packets i ≠ []
  isActive : ∀ i, q.isActive i = true ↔ q.packets i ≠ []
  lt : ∀ i ∈ q.activeQ, i < q.nQueue
  total : q.nPackets = ∑ i ∈ Finset.range q.nQueue, (q.packets i).length
  credits_lt : ∀ i ∈ q.activeQ, q.credits i < q.quantum + M
  /-- A queue that is not at the front has its quantum. -/
  quantum_le : ∀ i ∈ q.activeQ.tail, q.quantum ≤ q.credits i

theorem Wf.listed {M : Nat} {q : StocFairQueue} (h : Wf M q) : Listed q where
  nQueue_pos := h.nQueue_pos
  nodup := h.nodup
  mem_iff := h.mem_iff
  isActive := h.isActive
  lt := h.lt
  total := h.total

theorem Listed.wf {M : Nat} {q : StocFairQueue} (h : Listed q) (hnowrap : q.quantum + M ≤ 2 ^ 32)
    (hsizes : ∀ i, ∀ p ∈ q.packets i, 1 ≤ p.size ∧ p.size ≤ M)
    (hcredits : ∀ i ∈ q.activeQ, q.credits i < q.quantum + M)
    (hquantum : ∀ i ∈ q.activeQ.tail, q.quantum ≤ q.credits i) : Wf M q where
  nowrap := hnowrap
  nQueue_pos := h.nQueue_pos
  sizes := hsizes
  nodup := h.nodup
  mem_iff := h.mem_iff
  isActive := h.isActive
  lt := h.lt
  total := h.total
  credits_lt := hcredits
  quantum_le := hquantum

/-- The front queue can pay for its next packet. -/
def Ready (q : StocFairQueue) : Prop :=
  ∀ i ∈ q.activeQ.head?, ∀ p ∈ (q.packets i).getLast?, p.size ≤ q.credits i

/-- Between handler calls: the front queue is ready, and one completion event is
    registered while packets are stored. -/
structure Serving (M : Nat) (q : StocFairQueue) : Prop where
  wf : Wf M q
  ready : Ready q
  pending : q.pending = if q.nPackets = 0 then 0 else 1

theorem listed_new {bitrate maxsize nQueue quantum : Nat} (hpos : 1 ≤ nQueue) :
    Listed (new bitrate maxsize nQueue quantum) where
  nQueue_pos := hpos
  nodup := List.nodup_nil
  mem_iff := fun _ => by simp [new]
  isActive := fun _ => by simp [new]
  lt := fun _ hi => absurd hi List.not_mem_nil
  total := by simp [new]

theorem wf_new {M bitrate maxsize nQueue quantum : Nat} (h : quantum + M ≤ 2 ^ 32)
    (hpos : 1 ≤ nQueue) : Wf M (new bitrate maxsize nQueue quantum) :=
  (listed_new hpos).wf h (fun _ _ hp => absurd hp List.not_mem_nil)
    (fun _ hi => absurd hi List.not_mem_nil) (fun _ hi => absurd hi List.not_mem_nil)

theorem serving_new {M bitrate maxsize nQueue quantum : Nat} (h : quantum + M ≤ 2 ^ 32)
    (hpos : 1 ≤ nQueue) : Serving M (new bitrate maxsize nQueue quantum) where
  wf := wf_new h hpos
  ready := fun _ hi => by cases hi
  pending := rfl

/-- The stored packets are counted queue by queue. -/
theorem sum_length_update {α : Type*} {n k : Nat} (hk : k < n) (f : Nat → List α)
    (l : List α) :
    ∑ i ∈ Finset.range n, (Function.update f k l i).length + (f k).length =
      ∑ i ∈ Finset.range n, (f i).length + l.length := sum_update hk List.length f l

/-- With a packet stored there is an active queue, and the other way round. -/
theorem Listed.nPackets_eq_zero {q : StocFairQueue} (h : Listed q) :
    q.nPackets = 0 ↔ q.activeQ = [] := by
  rw [h.total, Finset.sum_eq_zero_iff, List.eq_nil_iff_forall_not_mem]
  constructor
  · intro h0 i hi
    have hlen := h0 i (Finset.mem_range.mpr (h.lt i hi))
    exact (h.mem_iff i).mp hi (List.length_eq_zero_iff.mp hlen)
  · intro hnil i _
    by_contra hlen
    exact hnil i ((h.mem_iff i).mpr fun h0 => hlen (by rw [h0]; rfl))

/-! ## The balance of two queues -/

/-- `j` is ahead of `i` in the active list. -/
def Ahead (j i : Nat) (l : List Nat) : Prop := l.idxOf j < l.idxOf i

instance (j i : Nat) (l : List Nat) : Decidable (Ahead j i l) :=
  inferInstanceAs (Decidable (_ < _))

/-- What `i` may still send less what `j` may still send, counting the quantum that `i`
    will get before its next turn when `j` is ahead of it. -/
def balance (i j : Nat) (q : StocFairQueue) : ℤ :=
  q.credits i - q.credits j - if Ahead j i q.activeQ then (q.quantum : ℤ) else 0

theorem balance_congr {i j : Nat} {q q' : StocFairQueue} (hi : q'.credits i = q.credits i)
    (hj : q'.credits j = q.credits j) (hquantum : q'.quantum = q.quantum)
    (hahead : Ahead j i q'.activeQ ↔ Ahead j i q.activeQ) : balance i j q' = balance i j q := by
  simp only [balance]
  rw [hi, hj, hquantum]
  simp only [hahead]

/-- A queue appended at the end changes nothing for those already in the list. -/
theorem ahead_append {i j : Nat} {l m : List Nat} (hi : i ∈ l) (hj : j ∈ l) :
    Ahead j i (l ++ m) ↔ Ahead j i l := by
  simp only [Ahead]
  rw [List.idxOf_append_of_mem hi, List.idxOf_append_of_mem hj]

/-- The order of two queues behind the front does not depend on the front. -/
theorem ahead_cons {i j k : Nat} {l : List Nat} (hi : k ≠ i) (hj : k ≠ j) :
    Ahead j i (k :: l) ↔ Ahead j i l := by
  simp only [Ahead]
  rw [List.idxOf_cons_ne _ hi, List.idxOf_cons_ne _ hj]
  exact Nat.succ_lt_succ_iff

theorem ahead_cons_self {i j : Nat} {l : List Nat} (hij : j ≠ i) : Ahead j i (j :: l) := by
  simp only [Ahead]
  rw [List.idxOf_cons_self, List.idxOf_cons_ne _ hij]
  exact Nat.succ_pos _

theorem not_ahead_self {i : Nat} (l : List Nat) : ¬ Ahead i i l := lt_irrefl _

theorem not_ahead_cons_self {i j : Nat} {l : List Nat} : ¬ Ahead j i (i :: l) := by
  simp only [Ahead]
  rw [List.idxOf_cons_self]
  exact Nat.not_lt_zero _

theorem ahead_append_self {i j : Nat} {l : List Nat} (hi : i ∉ l) (hj : j ∈ l) :
    Ahead j i (l ++ [i]) := by
  simp only [Ahead]
  rw [List.idxOf_append_of_mem hj, List.idxOf_append_of_notMem hi]
  exact Nat.lt_add_right _ (List.idxOf_lt_length_of_mem hj)

theorem not_ahead_append_self {i j : Nat} {l : List Nat} (hi : i ∈ l) (hj : j ∉ l) :
    ¬ Ahead j i (l ++ [j]) := by
  simp only [Ahead]
  rw [List.idxOf_append_of_mem hi, List.idxOf_append_of_notMem hj]
  have hlt := List.idxOf_lt_length_of_mem hi
  omega

/-- The balance of two non-empty queues between handler calls. -/
theorem Serving.balance_bounds {M : Nat} {q : StocFairQueue} (h : Serving M q) {i j : Nat}
    (hi : q.packets i ≠ []) (hj : q.packets j ≠ []) :
    -(q.quantum + M : ℤ) ≤ balance i j q ∧ balance i j q ≤ M := by
  have hi' := (h.wf.mem_iff i).mpr hi
  have hj' := (h.wf.mem_iff j).mpr hj
  have hci := h.wf.credits_lt i hi'
  have hcj := h.wf.credits_lt j hj'
  cases hact : q.activeQ with
  | nil =>
    rw [hact] at hi'
    exact absurd hi' List.not_mem_nil
  | cons k rest =>
    rw [hact] at hi' hj'
    -- whichever of the two is not at the front has its quantum
    have hquantum : ∀ x, x ∈ k :: rest → k ≠ x → q.quantum ≤ q.credits x := by
      intro x hx hne
      apply h.wf.quantum_le
      rw [hact]
      exact (List.mem_cons.mp hx).resolve_left (Ne.symm hne)
    simp only [balance]
    rw [hact]
    by_cases hji : Ahead j i (k :: rest)
    · rw [if_pos hji]
      have hne : k ≠ i := by
        intro heq
        subst heq
        exact not_ahead_cons_self hji
      have hqi := hquantum i hi' hne
      omega
    · rw [if_neg hji]
      by_cases hij : i = j
      · subst hij
        omega
      · have hne : k ≠ j := by
          intro heq
          subst heq
          exact hji (ahead_cons_self (Ne.symm hij))
        have hqj := hquantum j hj' hne
        omega

/-! ## Rotation -/

section Rotation

variable {M : Nat} {q q' : StocFairQueue} {k : Nat} {rest : List Nat}

/-- A bumped queue is granted its quantum in full: the credit does not wrap. -/
theorem Wf.credits_bump (h : Wf M q) (rest : List Nat) (hM : q.credits k < M) :
    (q.bump k rest).credits = Function.update q.credits k (q.credits k + q.quantum) := by
  have hnowrap := h.nowrap
  show Function.update q.credits k ((q.credits k + q.quantum) % 2 ^ 32) = _
  rw [Nat.mod_eq_of_lt (by omega)]

theorem mem_activeQ_bump (hact : q.activeQ = k :: rest) (i : Nat) :
    i ∈ (q.bump k rest).activeQ ↔ i ∈ q.activeQ := by
  show i ∈ rest ++ [k] ↔ _
  rw [hact, List.mem_append, List.mem_singleton, List.mem_cons, or_comm]

theorem listed_bump (h : Listed q) (hact : q.activeQ = k :: rest) : Listed (q.bump k rest) := by
  have hnodup := h.nodup
  rw [hact, List.nodup_cons] at hnodup
  have hmem := mem_activeQ_bump hact
  refine
    { nQueue_pos := h.nQueue_pos
      nodup := ?_
      mem_iff := fun i => (hmem i).trans (h.mem_iff i)
      isActive := h.isActive
      lt := fun i hi => h.lt i ((hmem i).mp hi)
      total := h.total }
  show (rest ++ [k]).Nodup
  rw [List.nodup_append_comm]
  exact List.nodup_cons.mpr hnodup

theorem wf_bump (h : Wf M q) (hact : q.activeQ = k :: rest) (hM : q.credits k < M) :
    Wf M (q.bump k rest) := by
  have hcred := h.credits_bump rest hM
  have hmem := mem_activeQ_bump hact
  -- the front queue is granted a quantum, the others keep their credits
  have hcred_ne : ∀ i, i ≠ k → (q.bump k rest).credits i = q.credits i := by
    intro i hi
    rw [hcred, Function.update_of_ne hi]
  refine (listed_bump h.listed hact).wf h.nowrap h.sizes ?_ ?_
  · intro i hi
    show _ < q.quantum + M
    by_cases hik : i = k
    · rw [hik, hcred, Function.update_self]
      omega
    · rw [hcred_ne i hik]
      exact h.credits_lt i ((hmem i).mp hi)
  · intro i hi
    show q.quantum ≤ _
    by_cases hik : i = k
    · rw [hik, hcred, Function.update_self]
      exact Nat.le_add_left _ _
    · rw [hcred_ne i hik]
      apply h.quantum_le
      rw [hact]
      have hi' := (hmem i).mp (List.mem_of_mem_tail hi)
      rw [hact] at hi'
      exact (List.mem_cons.mp hi').resolve_left hik

/-- Going to the back of the list costs `i` its place ahead of `j` and gains it a
    quantum, and the same for `j`: the balance stays. -/
theorem balance_bump (h : Wf M q) (hact : q.activeQ = k :: rest) (hM : q.credits k < M)
    {i j : Nat} (hi : q.packets i ≠ []) (hj : q.packets j ≠ []) :
    balance i j (q.bump k rest) = balance i j q := by
  have hcred := h.credits_bump rest hM
  have hnodup := h.nodup
  rw [hact, List.nodup_cons] at hnodup
  have hi' := (h.mem_iff i).mpr hi
  have hj' := (h.mem_iff j).mpr hj
  rw [hact] at hi' hj'
  have hlist : (q.bump k rest).activeQ = rest ++ [k] := rfl
  have hquantum : (q.bump k rest).quantum = q.quantum := rfl
  simp only [balance]
  rw [hcred, hlist, hquantum, hact]
  by_cases hki : k = i
  · -- the front queue is `i`: it gains the quantum and falls behind `j`
    subst hki
    rw [if_neg not_ahead_cons_self, Function.update_self]
    by_cases hkj : k = j
    · subst hkj
      rw [Function.update_self, if_neg (not_ahead_self _)]
      omega
    · have hjr := (List.mem_cons.mp hj').resolve_left (Ne.symm hkj)
      rw [Function.update_of_ne (Ne.symm hkj), if_pos (ahead_append_self hnodup.1 hjr)]
      omega
  · have hir := (List.mem_cons.mp hi').resolve_left (Ne.symm hki)
    rw [Function.update_of_ne (Ne.symm hki)]
    by_cases hkj : k = j
    · -- the front queue is `j`: it was ahead of `i` and is not any more
      subst hkj
      rw [Function.update_self, if_neg (not_ahead_append_self hir hnodup.1),
        if_pos (ahead_cons_self hki)]
      omega
    · have hjr := (List.mem_cons.mp hj').resolve_left (Ne.symm hkj)
      rw [Function.update_of_ne (Ne.symm hkj)]
      -- neither is the front queue: their order is as before
      simp only [ahead_append hir hjr, ahead_cons hki hkj]

/-- An active queue has a packet to send next. -/
theorem Listed.back (h : Listed q) (hk : k ∈ q.activeQ) :
    ∃ p, (q.packets k).getLast? = some p ∧ p ∈ q.packets k := by
  have hne : q.packets k ≠ [] := (h.mem_iff k).mp hk
  exact ⟨(q.packets k).getLast hne, List.getLast?_eq_some_getLast hne, List.getLast_mem hne⟩

/-- The front queue, with the packet it would send next. -/
theorem Wf.front (h : Wf M q) (hact : q.activeQ = k :: rest) :
    ∃ p, (q.packets k).getLast? = some p ∧ 1 ≤ p.size ∧ p.size ≤ M := by
  obtain ⟨p, hback, hmem⟩ := h.listed.back (k := k) (by rw [hact]; exact List.mem_cons_self)
  exact ⟨p, hback, h.sizes k p hmem⟩

/-- The loop of `beginService` as a whole: it leaves the packets, gives a queue that can
    pay at the front, and keeps every balance. -/
theorem rotate_spec (fuel : Nat) (h : Wf M q) (hrot : rotate fuel q = some q') :
    Wf M q' ∧ Ready q' ∧ q'.packets = q.packets ∧ q'.nPackets = q.nPackets ∧
      q'.pending = q.pending ∧ q'.quantum = q.quantum ∧
      ∀ i j, q.packets i ≠ [] → q.packets j ≠ [] → balance i j q' = balance i j q := by
  -- round by round: each keeps `Wf` and the balance of any two busy queues
  induction fuel generalizing q with
  | zero => cases hrot
  | succ fuel ih =>
    cases hact : q.activeQ with
    | nil =>
      rw [rotate, hact] at hrot
      cases hrot
    | cons k rest =>
      obtain ⟨p, hp, -, hpM⟩ := h.front hact
      rw [rotate, hact] at hrot
      simp only [hp] at hrot
      by_cases hlow : q.credits k < p.size
      · -- one more round, from the state after `bump`
        rw [if_pos hlow] at hrot
        have hM : q.credits k < M := hlow.trans_le hpM
        obtain ⟨hwf, hready, hpkts, hn, hpend, hquantum, hbal⟩ := ih (wf_bump h hact hM) hrot
        refine ⟨hwf, hready, hpkts, hn, hpend, hquantum, fun i j hi hj => ?_⟩
        rw [hbal i j hi hj]
        exact balance_bump h hact hM hi hj
      · -- the loop stops here, and the front queue is the one that can pay
        rw [if_neg hlow] at hrot
        cases hrot
        refine ⟨h, ?_, rfl, rfl, rfl, rfl, fun i j _ _ => rfl⟩
        intro i hi x hx
        rw [hact] at hi
        cases hi
        rw [hp] at hx
        cases hx
        exact not_lt.mp hlow

/-- The credits that are missing for every queue to pay for any packet. -/
def missing (M : Nat) (q : StocFairQueue) : Nat :=
  ∑ i ∈ Finset.range q.nQueue, (M - q.credits i)

theorem missing_bump (h : Wf M q) (hact : q.activeQ = k :: rest) (hM : q.credits k < M)
    (hpos : 1 ≤ q.quantum) : missing M (q.bump k rest) < missing M q := by
  have hk : k ∈ Finset.range q.nQueue :=
    Finset.mem_range.mpr (h.lt k (by rw [hact]; exact List.mem_cons_self))
  have hcred := h.credits_bump rest hM
  apply Finset.sum_lt_sum
  · intro i _
    rw [hcred]
    by_cases hik : i = k
    · rw [hik, Function.update_self]
      omega
    · rw [Function.update_of_ne hik]
  · refine ⟨k, hk, ?_⟩
    rw [hcred, Function.update_self]
    omega

/-- The loop ends: every round but the last grants a quantum to a queue that lacks it. -/
theorem rotate_isSome (fuel : Nat) (h : Wf M q) (hpos : 1 ≤ q.quantum) (hne : q.activeQ ≠ [])
    (hfuel : missing M q < fuel) : (rotate fuel q).isSome = true := by
  induction fuel generalizing q with
  | zero => exact absurd hfuel (Nat.not_lt_zero _)
  | succ fuel ih =>
    cases hact : q.activeQ with
    | nil => exact absurd hact hne
    | cons k rest =>
      obtain ⟨p, hp, -, hpM⟩ := h.front hact
      rw [rotate, hact]
      simp only [hp]
      by_cases hlow : q.credits k < p.size
      · rw [if_pos hlow]
        have hM : q.credits k < M := hlow.trans_le hpM
        have hless := missing_bump h hact hM hpos
        apply ih (wf_bump h hact hM) hpos
        · exact List.append_ne_nil_of_right_ne_nil _ (List.cons_ne_nil _ _)
        · omega
      · rw [if_neg hlow]
        rfl

/-- `beginService` on an idle queue, when it returns. -/
theorem beginService_spec {fuel : Nat} (h : Wf M q) (hidle : q.pending = 0)
    (hbegin : q.beginService fuel = some q') :
    Serving M q' ∧ q'.packets = q.packets ∧ q'.quantum = q.quantum ∧
      ∀ i j, q.packets i ≠ [] → q.packets j ≠ [] → balance i j q' = balance i j q := by
  unfold beginService at hbegin
  by_cases hn : 0 < q.nPackets
  · rw [if_pos hn] at hbegin
    obtain ⟨r, hrot, rfl⟩ := Option.map_eq_some_iff.mp hbegin
    obtain ⟨hwf, hready, hpkts, hnp, hpend, hquantum, hbal⟩ := rotate_spec fuel h hrot
    refine ⟨⟨?_, hready, ?_⟩, hpkts, hquantum, hbal⟩
    · exact { hwf with }
    · show r.pending + 1 = if r.nPackets = 0 then 0 else 1
      rw [hpend, hidle, hnp, if_neg (by omega)]
  · rw [if_neg hn] at hbegin
    cases hbegin
    have hn0 : q.nPackets = 0 := by omega
    refine ⟨⟨h, ?_, by rw [hidle, if_pos hn0]⟩, rfl, rfl, fun i j _ _ => rfl⟩
    intro i hi
    rw [h.listed.nPackets_eq_zero.mp hn0] at hi
    cases hi

/-- A rotation of the active list moves no packet. -/
theorem rotate_packets {fuel : Nat} (h : rotate fuel q = some q') :
    q'.packets = q.packets ∧ q'.nQueue = q.nQueue := by
  induction fuel generalizing q with
  | zero => cases h
  | succ fuel ih =>
    simp only [rotate] at h
    split at h
    · cases h
    · split at h
      · cases h
      · split_ifs at h
        · have hrest := ih h
          exact hrest
        · cases h
          exact ⟨rfl, rfl⟩

theorem beginService_packets {fuel : Nat} (h : beginService fuel q = some q') :
    q'.packets = q.packets ∧ q'.nQueue = q.nQueue := by
  simp only [beginService] at h
  split_ifs at h
  · obtain ⟨q₁, hrot, rfl⟩ := Option.map_eq_some_iff.mp h
    have hrot' := rotate_packets hrot
    exact hrot'
  · cases h
    exact ⟨rfl, rfl⟩

end Rotation

/-! ## Arrival -/

section Store

variable {M : Nat} {q : StocFairQueue} {pkt : Packet}

theorem queueOf_lt (h : Listed q) : q.queueOf pkt < q.nQueue := Nat.mod_lt _ h.nQueue_pos

/-- What storing a packet does to the lists, by whether its FIFO queue was active. -/
theorem store_of_active (h : q.isActive (q.queueOf pkt) = true) :
    (q.store pkt).packets =
        Function.update q.packets (q.queueOf pkt) (pkt :: q.packets (q.queueOf pkt)) ∧
      (q.store pkt).isActive = q.isActive ∧ (q.store pkt).activeQ = q.activeQ ∧
      (q.store pkt).credits = q.credits := by
  simp only [store]
  rw [if_pos h]
  exact ⟨rfl, rfl, rfl, rfl⟩

theorem store_of_inactive (h : ¬ q.isActive (q.queueOf pkt) = true) :
    (q.store pkt).packets =
        Function.update q.packets (q.queueOf pkt) (pkt :: q.packets (q.queueOf pkt)) ∧
      (q.store pkt).isActive = Function.update q.isActive (q.queueOf pkt) true ∧
      (q.store pkt).activeQ = q.activeQ ++ [q.queueOf pkt] ∧
      (q.store pkt).credits = Function.update q.credits (q.queueOf pkt) q.quantum := by
  simp only [store]
  rw [if_neg h]
  exact ⟨rfl, rfl, rfl, rfl⟩

theorem store_fields :
    (q.store pkt).nPackets = q.nPackets + 1 ∧ (q.store pkt).quantum = q.quantum ∧
      (q.store pkt).nQueue = q.nQueue ∧ (q.store pkt).pending = q.pending := by
  simp only [store]
  split_ifs
  · exact ⟨rfl, rfl, rfl, rfl⟩
  · exact ⟨rfl, rfl, rfl, rfl⟩

theorem packets_store :
    (q.store pkt).packets =
      Function.update q.packets (q.queueOf pkt) (pkt :: q.packets (q.queueOf pkt)) := by
  by_cases hact : q.isActive (q.queueOf pkt) = true
  · exact (store_of_active hact).1
  · exact (store_of_inactive hact).1

/-- A packet is added to one FIFO queue. -/
theorem packets_store_ne_nil (i : Nat) :
    (q.store pkt).packets i ≠ [] ↔ i = q.queueOf pkt ∨ q.packets i ≠ [] := by
  rw [packets_store]
  by_cases hi : i = q.queueOf pkt
  · rw [hi, Function.update_self]
    exact iff_of_true (List.cons_ne_nil _ _) (Or.inl rfl)
  · rw [Function.update_of_ne hi]
    exact ⟨Or.inr, fun h => h.resolve_left hi⟩

/-- The active list after storing a packet: the same queues, and that of the packet. -/
theorem mem_activeQ_store (h : Listed q) (i : Nat) :
    i ∈ (q.store pkt).activeQ ↔ i = q.queueOf pkt ∨ i ∈ q.activeQ := by
  by_cases hact : q.isActive (q.queueOf pkt) = true
  · rw [(store_of_active hact).2.2.1]
    have hk := (h.mem_iff _).mpr ((h.isActive _).mp hact)
    exact ⟨Or.inr, fun hi => hi.elim (fun heq => heq ▸ hk) id⟩
  · rw [(store_of_inactive hact).2.2.1, List.mem_append, List.mem_singleton, or_comm]

theorem listed_store (h : Listed q) (pkt : Packet) : Listed (q.store pkt) := by
  obtain ⟨hn, -, hnq, -⟩ := @store_fields q pkt
  have hklt := @queueOf_lt q pkt h
  -- a queue joins the list exactly when its first packet is stored
  refine
    { nQueue_pos := by rw [hnq]; exact h.nQueue_pos
      nodup := ?_
      mem_iff := ?_
      isActive := ?_
      lt := ?_
      total := ?_ }
  · -- a queue is appended only when it is not in the list
    by_cases hact : q.isActive (q.queueOf pkt) = true
    · rw [(store_of_active hact).2.2.1]
      exact h.nodup
    · rw [(store_of_inactive hact).2.2.1, List.nodup_append_comm]
      have hk : q.queueOf pkt ∉ q.activeQ :=
        fun hk => hact ((h.isActive _).mpr ((h.mem_iff _).mp hk))
      exact List.nodup_cons.mpr ⟨hk, h.nodup⟩
  · intro i
    rw [mem_activeQ_store h, packets_store_ne_nil, h.mem_iff]
  · intro i
    rw [packets_store_ne_nil]
    by_cases hact : q.isActive (q.queueOf pkt) = true
    · rw [(store_of_active hact).2.1, h.isActive]
      exact ⟨Or.inr, fun hi => hi.elim (fun heq => heq ▸ (h.isActive _).mp hact) id⟩
    · rw [(store_of_inactive hact).2.1]
      by_cases hi : i = q.queueOf pkt
      · rw [hi, Function.update_self]
        exact iff_of_true rfl (Or.inl rfl)
      · rw [Function.update_of_ne hi, h.isActive]
        exact ⟨Or.inr, fun h' => h'.resolve_left hi⟩
  · intro i hi
    rw [hnq]
    rcases (mem_activeQ_store h i).mp hi with rfl | hi
    · exact hklt
    · exact h.lt i hi
  · rw [hn, hnq, packets_store, h.total]
    have hsum := sum_length_update hklt q.packets (pkt :: q.packets (q.queueOf pkt))
    rw [List.length_cons] at hsum
    omega

/-- What holds of the packets holds after storing one. -/
theorem sizes_store {P : Packet → Prop} (h : ∀ i, ∀ p ∈ q.packets i, P p) (hsize : P pkt) :
    ∀ i, ∀ p ∈ (q.store pkt).packets i, P p := by
  intro i p hp
  rw [packets_store] at hp
  by_cases hi : i = q.queueOf pkt
  · rw [hi, Function.update_self] at hp
    rcases List.mem_cons.mp hp with rfl | hp
    · exact hsize
    · exact h _ p hp
  · rw [Function.update_of_ne hi] at hp
    exact h i p hp

/-- A queue that becomes active starts with a quantum; the credits of the others stay. -/
theorem credits_store_lt (h : Listed q) (hcredits : ∀ i ∈ q.activeQ, q.credits i < q.quantum + M)
    (hM : 1 ≤ M) : ∀ i ∈ (q.store pkt).activeQ, (q.store pkt).credits i < q.quantum + M := by
  intro i hi
  by_cases hact : q.isActive (q.queueOf pkt) = true
  · rw [(store_of_active hact).2.2.1] at hi
    rw [(store_of_active hact).2.2.2]
    exact hcredits i hi
  · rw [(store_of_inactive hact).2.2.2]
    by_cases hik : i = q.queueOf pkt
    · rw [hik, Function.update_self]
      omega
    · rw [Function.update_of_ne hik]
      exact hcredits i (((mem_activeQ_store h i).mp hi).resolve_left hik)

theorem wf_store (h : Wf M q) (hsize : 1 ≤ pkt.size ∧ pkt.size ≤ M) : Wf M (q.store pkt) := by
  obtain ⟨-, hquantum, -, -⟩ := @store_fields q pkt
  refine (listed_store h.listed pkt).wf (by rw [hquantum]; exact h.nowrap)
    (sizes_store h.sizes hsize) ?_ ?_
  · rw [hquantum]
    exact credits_store_lt h.listed h.credits_lt (hsize.1.trans hsize.2)
  · intro i hi
    rw [hquantum]
    by_cases hact : q.isActive (q.queueOf pkt) = true
    · rw [(store_of_active hact).2.2.1] at hi
      rw [(store_of_active hact).2.2.2]
      exact h.quantum_le i hi
    · -- a queue that becomes active is given its quantum at once
      rw [(store_of_inactive hact).2.2.1] at hi
      rw [(store_of_inactive hact).2.2.2]
      by_cases hik : i = q.queueOf pkt
      · rw [hik, Function.update_self]
      · rw [Function.update_of_ne hik]
        apply h.quantum_le
        -- behind the front it was listed before, or it is the one just appended
        cases hq : q.activeQ with
        | nil =>
          rw [hq] at hi
          exact absurd hi List.not_mem_nil
        | cons k rest =>
          rw [hq] at hi
          rcases List.mem_append.mp hi with hi | hi
          · exact hi
          · exact absurd (List.mem_singleton.mp hi) hik

/-- Storing a packet changes neither the order nor the credits of active queues. -/
theorem balance_store (h : Wf M q) {i j : Nat} (hi : q.packets i ≠ []) (hj : q.packets j ≠ []) :
    balance i j (q.store pkt) = balance i j q := by
  obtain ⟨-, hquantum, -, -⟩ := @store_fields q pkt
  by_cases hact : q.isActive (q.queueOf pkt) = true
  · obtain ⟨-, -, hlist, hcred⟩ := store_of_active hact
    apply balance_congr
    · rw [hcred]
    · rw [hcred]
    · exact hquantum
    · rw [hlist]
  · obtain ⟨-, -, hlist, hcred⟩ := store_of_inactive hact
    have hne : ∀ x, q.packets x ≠ [] → x ≠ q.queueOf pkt := by
      intro x hx heq
      exact hact ((h.isActive _).mpr (heq ▸ hx))
    apply balance_congr
    · rw [hcred, Function.update_of_ne (hne i hi)]
    · rw [hcred, Function.update_of_ne (hne j hj)]
    · exact hquantum
    · rw [hlist]
      exact ahead_append ((h.mem_iff i).mpr hi) ((h.mem_iff j).mpr hj)

/-- The front queue and its next packet stay when there was one. -/
theorem ready_store (h : Listed q) (hready : Ready q) (hne : q.nPackets ≠ 0) :
    Ready (q.store pkt) := by
  have hact : q.activeQ ≠ [] := fun h0 => hne (h.nPackets_eq_zero.mpr h0)
  cases hq : q.activeQ with
  | nil => exact absurd hq hact
  | cons k rest =>
    have hk : q.packets k ≠ [] := (h.mem_iff k).mp (by rw [hq]; exact List.mem_cons_self)
    have hhead : (q.store pkt).activeQ.head? = some k ∧
        (q.store pkt).credits k = q.credits k := by
      by_cases hact' : q.isActive (q.queueOf pkt) = true
      · obtain ⟨-, -, hlist, hcred⟩ := store_of_active hact'
        rw [hlist, hcred, hq]
        exact ⟨rfl, rfl⟩
      · obtain ⟨-, -, hlist, hcred⟩ := store_of_inactive hact'
        have hkq : k ≠ q.queueOf pkt := fun heq => hact' ((h.isActive _).mpr (heq ▸ hk))
        rw [hlist, hcred, hq, Function.update_of_ne hkq]
        exact ⟨rfl, rfl⟩
    -- a packet is added at the other end
    have hlast : ((q.store pkt).packets k).getLast? = (q.packets k).getLast? := by
      rw [packets_store]
      by_cases hkq : k = q.queueOf pkt
      · rw [← hkq, Function.update_self]
        exact List.getLast?_cons_of_ne_nil hk
      · rw [Function.update_of_ne hkq]
    intro i hi p hp
    rw [hhead.1] at hi
    cases hi
    rw [hlast] at hp
    rw [hhead.2]
    exact hready k (by rw [hq]; rfl) p hp

end Store

/-! ## Completion -/

section Complete

variable {M : Nat} {q : StocFairQueue} {k : Nat} {rest : List Nat} {p : Packet}

theorem sub32_of_le {a b : Nat} (hle : b ≤ a) (hlt : a < 2 ^ 32) : sub32 a b = a - b := by
  simp only [sub32]
  rw [Nat.mod_eq_of_lt (hle.trans_lt hlt)]
  have hrw : a + 2 ^ 32 - b = (a - b) + 2 ^ 32 := by omega
  rw [hrw, Nat.add_mod_right, Nat.mod_eq_of_lt (by omega)]

/-- The state in which a completion event is handled: the front queue pays for the packet
    at its back. -/
structure Due (M : Nat) (q : StocFairQueue) (k : Nat) (rest : List Nat) (p : Packet) :
    Prop where
  serving : Serving M q
  activeQ : q.activeQ = k :: rest
  back : (q.packets k).getLast? = some p

theorem Due.paid (h : Due M q k rest p) :
    p.size ≤ q.credits k ∧
      (q.dequeue k p).credits = Function.update q.credits k (q.credits k - p.size) := by
  have hle : p.size ≤ q.credits k :=
    h.serving.ready k (by rw [h.activeQ]; rfl) p (by rw [h.back]; rfl)
  have hlt := h.serving.wf.credits_lt k (by rw [h.activeQ]; exact List.mem_cons_self)
  have hnowrap := h.serving.wf.nowrap
  refine ⟨hle, ?_⟩
  show Function.update q.credits k (sub32 (q.credits k) p.size) = _
  rw [sub32_of_le hle (by omega)]

/-- Either the front queue drains and leaves the active list, or it stays at the front. -/
theorem deactivate_dequeue (hact : q.activeQ = k :: rest) (p : Packet) :
    ((q.packets k).dropLast = [] ∧
        ((q.dequeue k p).deactivate k).isActive = Function.update q.isActive k false ∧
        ((q.dequeue k p).deactivate k).activeQ = rest ∧
        ((q.dequeue k p).deactivate k).credits = Function.update (q.dequeue k p).credits k 0) ∨
      ((q.packets k).dropLast ≠ [] ∧
        ((q.dequeue k p).deactivate k).isActive = q.isActive ∧
        ((q.dequeue k p).deactivate k).activeQ = q.activeQ ∧
        ((q.dequeue k p).deactivate k).credits = (q.dequeue k p).credits) := by
  have hk : (q.dequeue k p).packets k = (q.packets k).dropLast := Function.update_self k _ _
  simp only [deactivate]
  rw [hk]
  cases hdrop : (q.packets k).dropLast with
  | nil =>
    refine Or.inl ⟨rfl, rfl, ?_, rfl⟩
    show q.activeQ.tail = rest
    rw [hact]
    rfl
  | cons x l => exact Or.inr ⟨List.cons_ne_nil _ _, rfl, rfl, rfl⟩

theorem deactivate_fields (q : StocFairQueue) (k : Nat) :
    (q.deactivate k).packets = q.packets ∧ (q.deactivate k).nPackets = q.nPackets ∧
      (q.deactivate k).quantum = q.quantum ∧ (q.deactivate k).nQueue = q.nQueue ∧
      (q.deactivate k).pending = q.pending := by
  simp only [deactivate]
  split_ifs
  · exact ⟨rfl, rfl, rfl, rfl, rfl⟩
  · exact ⟨rfl, rfl, rfl, rfl, rfl⟩

/-- Only the served FIFO queue can become empty. -/
theorem packets_dequeue_ne_nil (i : Nat) :
    (q.dequeue k p).packets i ≠ [] ↔
      (i = k ∧ (q.packets k).dropLast ≠ []) ∨ (i ≠ k ∧ q.packets i ≠ []) := by
  show Function.update q.packets k _ i ≠ [] ↔ _
  by_cases hi : i = k
  · rw [hi, Function.update_self]
    simp
  · rw [Function.update_of_ne hi]
    simp [hi]

/-- Only the queues behind the front, and it if it keeps a packet, stay active. -/
theorem mem_activeQ_dequeue (hact : q.activeQ = k :: rest) {i : Nat}
    (hi : i ∈ ((q.dequeue k p).deactivate k).activeQ) : i ∈ q.activeQ := by
  rcases deactivate_dequeue hact p with ⟨-, -, hl, -⟩ | ⟨-, -, hl, -⟩
  · rw [hl] at hi
    rw [hact]
    exact List.mem_cons_of_mem _ hi
  · rw [hl] at hi
    exact hi

theorem listed_dequeue (h : Listed q) (hact : q.activeQ = k :: rest) (p : Packet) :
    Listed ((q.dequeue k p).deactivate k) := by
  obtain ⟨hpkts, hn, -, hnq, -⟩ := deactivate_fields (q.dequeue k p) k
  have hnodup := h.nodup
  rw [hact, List.nodup_cons] at hnodup
  have hkact : k ∈ q.activeQ := by rw [hact]; exact List.mem_cons_self
  have hkne : q.packets k ≠ [] := (h.mem_iff k).mp hkact
  have hklt := h.lt k hkact
  -- what is behind the front queue is listed and is another queue
  have hrest : ∀ i ∈ rest, i ≠ k ∧ i ∈ q.activeQ := by
    intro i hi
    refine ⟨fun heq => hnodup.1 (heq ▸ hi), ?_⟩
    rw [hact]
    exact List.mem_cons_of_mem _ hi
  refine
    { nQueue_pos := by rw [hnq]; exact h.nQueue_pos
      nodup := ?_
      mem_iff := ?_
      isActive := ?_
      lt := ?_
      total := ?_ }
  · -- the list loses its front or stays
    rcases deactivate_dequeue hact p with ⟨-, -, hl, -⟩ | ⟨-, -, hl, -⟩
    · rw [hl]
      exact hnodup.2
    · rw [hl]
      exact h.nodup
  · intro i
    rw [hpkts, packets_dequeue_ne_nil]
    rcases deactivate_dequeue hact p with ⟨hdrop, -, hl, -⟩ | ⟨hdrop, -, hl, -⟩
    · -- the served queue drained and left
      rw [hl]
      constructor
      · intro hi
        exact Or.inr ⟨(hrest i hi).1, (h.mem_iff i).mp (hrest i hi).2⟩
      · rintro (⟨-, hne⟩ | ⟨hik, hne⟩)
        · exact absurd hdrop hne
        · have hi := (h.mem_iff i).mpr hne
          rw [hact] at hi
          exact (List.mem_cons.mp hi).resolve_left hik
    · rw [hl, h.mem_iff]
      by_cases hik : i = k
      · rw [hik]
        exact iff_of_true hkne (Or.inl ⟨rfl, hdrop⟩)
      · exact ⟨fun hne => Or.inr ⟨hik, hne⟩, fun h' => (h'.resolve_left fun h'' => hik h''.1).2⟩
  · intro i
    rw [hpkts, packets_dequeue_ne_nil]
    rcases deactivate_dequeue hact p with ⟨hdrop, ha, -, -⟩ | ⟨hdrop, ha, -, -⟩
    · rw [ha]
      by_cases hik : i = k
      · rw [hik, Function.update_self]
        simp [hdrop]
      · rw [Function.update_of_ne hik, h.isActive]
        exact ⟨fun hne => Or.inr ⟨hik, hne⟩, fun h' => (h'.resolve_left fun h'' => hik h''.1).2⟩
    · rw [ha, h.isActive]
      by_cases hik : i = k
      · rw [hik]
        exact iff_of_true hkne (Or.inl ⟨rfl, hdrop⟩)
      · exact ⟨fun hne => Or.inr ⟨hik, hne⟩, fun h' => (h'.resolve_left fun h'' => hik h''.1).2⟩
  · intro i hi
    rw [hnq]
    exact h.lt i (mem_activeQ_dequeue hact hi)
  · rw [hn, hnq, hpkts]
    show q.nPackets - 1 =
      ∑ i ∈ Finset.range q.nQueue, (Function.update q.packets k (q.packets k).dropLast i).length
    have hsum := sum_length_update hklt q.packets (q.packets k).dropLast
    have hlen := List.length_pos_iff.mpr hkne
    rw [List.length_dropLast] at hsum
    rw [h.total]
    omega

/-- What holds of the packets holds after one is sent. -/
theorem sizes_dequeue {P : Packet → Prop} (h : ∀ i, ∀ x ∈ q.packets i, P x) (p : Packet) :
    ∀ i, ∀ x ∈ ((q.dequeue k p).deactivate k).packets i, P x := by
  intro i x hx
  rw [(deactivate_fields (q.dequeue k p) k).1] at hx
  replace hx : x ∈ Function.update q.packets k (q.packets k).dropLast i := hx
  by_cases hi : i = k
  · rw [hi, Function.update_self] at hx
    exact h k x (List.mem_of_mem_dropLast hx)
  · rw [Function.update_of_ne hi] at hx
    exact h i x hx

/-- A queue behind the front is neither served nor charged. -/
theorem credits_dequeue_of_ne (hact : q.activeQ = k :: rest) (p : Packet) {i : Nat}
    (hik : i ≠ k) : ((q.dequeue k p).deactivate k).credits i = q.credits i := by
  have hcred : (q.dequeue k p).credits i = q.credits i := Function.update_of_ne hik _ _
  rcases deactivate_dequeue hact p with ⟨-, -, -, hc⟩ | ⟨-, -, -, hc⟩
  · rw [hc, Function.update_of_ne hik, hcred]
  · rw [hc, hcred]

/-- The front queue pays; the credits of the others stay. -/
theorem credits_dequeue_lt (h : Listed q) (hact : q.activeQ = k :: rest) {B : Nat}
    (hcredits : ∀ i ∈ q.activeQ, q.credits i < B)
    (hpaid : (q.dequeue k p).credits k ≤ q.credits k) :
    ∀ i ∈ ((q.dequeue k p).deactivate k).activeQ,
      ((q.dequeue k p).deactivate k).credits i < B := by
  intro i hi
  have hiact := mem_activeQ_dequeue hact hi
  by_cases hik : i = k
  · subst hik
    rcases deactivate_dequeue hact p with ⟨-, -, hl, -⟩ | ⟨-, -, -, hc⟩
    · have hnodup := h.nodup
      rw [hact, List.nodup_cons] at hnodup
      rw [hl] at hi
      exact absurd hi hnodup.1
    · rw [hc]
      exact hpaid.trans_lt (hcredits i hiact)
  · rw [credits_dequeue_of_ne hact p hik]
    exact hcredits i hiact

theorem wf_deactivate_dequeue (h : Due M q k rest p) :
    Wf M ((q.dequeue k p).deactivate k) := by
  obtain ⟨-, -, hquantum, -, -⟩ := deactivate_fields (q.dequeue k p) k
  have hwf := h.serving.wf
  obtain ⟨-, hcred⟩ := h.paid
  refine (listed_dequeue hwf.listed h.activeQ p).wf (by rw [hquantum]; exact hwf.nowrap)
    (sizes_dequeue hwf.sizes p) ?_ ?_
  · rw [hquantum]
    refine credits_dequeue_lt hwf.listed h.activeQ hwf.credits_lt ?_
    rw [hcred, Function.update_self]
    exact Nat.sub_le _ _
  · intro i hi
    rw [hquantum]
    show q.quantum ≤ _
    -- whether or not the front queue leaves, the tail is part of `rest`
    have hir : i ∈ rest := by
      rcases deactivate_dequeue h.activeQ p with ⟨-, -, hl, -⟩ | ⟨-, -, hl, -⟩
      · rw [hl] at hi
        exact List.mem_of_mem_tail hi
      · rw [hl, h.activeQ] at hi
        exact hi
    have hnodup := hwf.nodup
    rw [h.activeQ, List.nodup_cons] at hnodup
    rw [credits_dequeue_of_ne h.activeQ p fun heq => hnodup.1 (heq ▸ hir)]
    refine hwf.quantum_le i ?_
    rw [h.activeQ]
    exact hir

/-- A completion takes its bytes from the balance of the queue served. -/
theorem balance_deactivate_dequeue (h : Due M q k rest p) {i j : Nat}
    (hi : ((q.dequeue k p).deactivate k).packets i ≠ [])
    (hj : ((q.dequeue k p).deactivate k).packets j ≠ []) :
    balance i j ((q.dequeue k p).deactivate k) =
      balance i j q - (if k = i then (p.size : ℤ) else 0) + if k = j then (p.size : ℤ) else 0 := by
  obtain ⟨hpkts, -, hquantum, -, -⟩ := deactivate_fields (q.dequeue k p) k
  obtain ⟨hle, hcred⟩ := h.paid
  rw [hpkts, packets_dequeue_ne_nil] at hi hj
  rcases deactivate_dequeue h.activeQ p with ⟨hdrop, -, hl, hc⟩ | ⟨-, -, hl, hc⟩
  · -- the served queue drained, so it is neither `i` nor `j`
    have hik := (hi.resolve_left fun h' => h'.2 hdrop).1
    have hjk := (hj.resolve_left fun h' => h'.2 hdrop).1
    rw [if_neg (Ne.symm hik), if_neg (Ne.symm hjk), sub_zero, add_zero]
    apply balance_congr
    · rw [hc, Function.update_of_ne hik, hcred, Function.update_of_ne hik]
    · rw [hc, Function.update_of_ne hjk, hcred, Function.update_of_ne hjk]
    · exact hquantum
    · rw [hl, h.activeQ]
      exact (ahead_cons (Ne.symm hik) (Ne.symm hjk)).symm
  · -- the list is as before: only the credit of the served queue moves
    simp only [balance]
    rw [hl, hc, hcred, hquantum]
    show _ - _ - (if _ then (q.quantum : ℤ) else 0) = _
    by_cases hik : k = i
    · subst hik
      rw [Function.update_self, if_pos rfl]
      -- of the two balances that the packet can enter, each by its size
      by_cases hjk : k = j
      · subst hjk
        rw [Function.update_self, if_pos rfl]
        omega
      · rw [Function.update_of_ne (Ne.symm hjk), if_neg hjk]
        omega
    · rw [Function.update_of_ne (Ne.symm hik), if_neg hik]
      by_cases hjk : k = j
      · subst hjk
        rw [Function.update_self, if_pos rfl]
        omega
      · rw [Function.update_of_ne (Ne.symm hjk), if_neg hjk]
        omega

/-- With a completion event registered and a packet stored there is one to complete. -/
theorem Listed.finishService (h : Listed q) (hpend : q.pending ≠ 0) (hn : q.nPackets ≠ 0) :
    ∃ k rest p, q.activeQ = k :: rest ∧ (q.packets k).getLast? = some p ∧
      q.finishService = some ((q.dequeue k p).deactivate k, k,
        applyEcnMark ((q.dequeue k p).deactivate k).bitrate
          ((q.dequeue k p).deactivate k).queuesize p) := by
  cases hact : q.activeQ with
  | nil => exact absurd (h.nPackets_eq_zero.mpr hact) hn
  | cons k rest =>
    obtain ⟨p, hp, -⟩ := h.back (k := k) (by rw [hact]; exact List.mem_cons_self)
    refine ⟨k, rest, p, rfl, hp, ?_⟩
    have hgo : ¬ (q.pending = 0 ∨ q.nPackets = 0) := fun h' => h'.elim hpend hn
    simp only [StocFairQueue.finishService]
    rw [if_neg hgo, hact]
    simp only [hp]

/-- A completion event finds a packet to complete. -/
theorem Serving.due (h : Serving M q) (hpend : q.pending ≠ 0) :
    ∃ k rest p, Due M q k rest p ∧ q.pending = 1 ∧ q.nPackets ≠ 0 ∧
      q.finishService = some ((q.dequeue k p).deactivate k, k,
        applyEcnMark ((q.dequeue k p).deactivate k).bitrate
          ((q.dequeue k p).deactivate k).queuesize p) := by
  have hpending := h.pending
  have hn : q.nPackets ≠ 0 := by
    intro h0
    rw [if_pos h0] at hpending
    exact hpend hpending
  rw [if_neg hn] at hpending
  obtain ⟨k, rest, p, hact, hp, hfin⟩ := h.wf.listed.finishService hpend hn
  exact ⟨k, rest, p, ⟨h, hact, hp⟩, hpending, hn, hfin⟩

/-- What a completion event finds. -/
theorem finishService_eq_some {r : StocFairQueue × Nat × Packet}
    (hr : q.finishService = some r) :
    q.pending ≠ 0 ∧ q.nPackets ≠ 0 ∧ ∃ k rest p, q.activeQ = k :: rest ∧
      (q.packets k).getLast? = some p ∧ r.1 = (q.dequeue k p).deactivate k := by
  simp only [StocFairQueue.finishService] at hr
  split_ifs at hr with hgo
  obtain ⟨hpend, hn⟩ := not_or.mp hgo
  refine ⟨hpend, hn, ?_⟩
  cases hact : q.activeQ with
  | nil =>
    rw [hact] at hr
    cases hr
  | cons k rest =>
    rw [hact] at hr
    cases hp : (q.packets k).getLast? with
    | none =>
      simp only [hp] at hr
      cases hr
    | some p =>
      simp only [hp] at hr
      cases hr
      exact ⟨k, rest, p, rfl, hp, rfl⟩

end Complete

/-! ## Handler calls -/

section Handlers

variable {M fuel : Nat} {q q' : StocFairQueue}

theorem receivePacket_spec (h : Serving M q) {pkt : Packet}
    (hsize : 1 ≤ pkt.size ∧ pkt.size ≤ M) (hrecv : q.receivePacket fuel pkt = some q') :
    Serving M q' ∧ q'.quantum = q.quantum ∧
      ∀ i j, q.packets i ≠ [] → q.packets j ≠ [] → balance i j q' = balance i j q := by
  obtain ⟨hn, hquantum, -, hpend⟩ := @store_fields q pkt
  have hpending := h.pending
  unfold receivePacket at hrecv
  by_cases hfull : q.maxsize < Word.add 64 q.queuesize pkt.size
  · -- no space in the buffer
    rw [if_pos hfull] at hrecv
    cases hrecv
    exact ⟨h, rfl, fun i j _ _ => rfl⟩
  · rw [if_neg hfull] at hrecv
    have hwf := wf_store h.wf hsize
    by_cases hempty : q.nPackets = 0
    · -- into an empty queue: service begins
      rw [if_pos hempty] at hrecv hpending
      -- storing and the rotation both leave the balance of busy queues alone
      obtain ⟨hserv, hpkts, hq, hbal⟩ := beginService_spec hwf (hpend.trans hpending) hrecv
      refine ⟨hserv, hq.trans hquantum, fun i j hi hj => ?_⟩
      have hi' := (@packets_store_ne_nil q pkt i).mpr (Or.inr hi)
      have hj' := (@packets_store_ne_nil q pkt j).mpr (Or.inr hj)
      rw [hbal i j hi' hj', balance_store h.wf hi hj]
    · -- behind other packets: the service under way goes on
      rw [if_neg hempty] at hrecv hpending
      cases hrecv
      refine ⟨⟨hwf, ready_store h.wf.listed h.ready hempty, ?_⟩, hquantum,
        fun i j hi hj => balance_store h.wf hi hj⟩
      rw [hpend, hpending, hn, if_neg (Nat.succ_ne_zero _)]

theorem completeService_spec (h : Serving M q) {l : List (Nat × Packet)}
    (hcomp : q.completeService fuel = some (q', l)) :
    Serving M q' ∧ q'.quantum = q.quantum ∧
      ∀ i j, q'.packets i ≠ [] → q'.packets j ≠ [] →
        balance i j q' = balance i j q - bytesFrom i l + bytesFrom j l := by
  have hpend : q.pending ≠ 0 := by
    intro h0
    have hnone : q.finishService = none := if_pos (Or.inl h0)
    rw [completeService, hnone] at hcomp
    cases hcomp
  obtain ⟨k, rest, p, hdue, hpend1, -, hfin⟩ := h.due hpend
  rw [completeService, hfin, Option.bind_some] at hcomp
  obtain ⟨r, hbegin, heq⟩ := Option.map_eq_some_iff.mp hcomp
  cases heq
  obtain ⟨-, -, hquantum, -, hpend'⟩ := deactivate_fields (q.dequeue k p) k
  -- the packet has left, so the next service begins from an idle server
  have hidle : ((q.dequeue k p).deactivate k).pending = 0 := by
    rw [hpend']
    show q.pending - 1 = 0
    omega
  obtain ⟨hserv, hpkts, hq, hbal⟩ := beginService_spec (wf_deactivate_dequeue hdue) hidle hbegin
  refine ⟨hserv, hq.trans hquantum, fun i j hi hj => ?_⟩
  rw [hpkts] at hi hj
  rw [hbal i j hi hj, balance_deactivate_dequeue hdue hi hj, bytesFrom_singleton,
    bytesFrom_singleton, size_applyEcnMark]
  push_cast
  rfl

/-- A handler call returns if the loop may run once for every byte a queue can lack: only a
    completion that was not registered is refused. -/
theorem handle_isSome (h : Serving M q) (hpos : 1 ≤ q.quantum) (hfuel : q.nQueue * M < fuel)
    {a : Act} (hsize : ∀ pkt, a = .arrive pkt → 1 ≤ pkt.size ∧ pkt.size ≤ M)
    (hpend : a = .complete → q.pending ≠ 0) : (q.handle fuel a).isSome = true := by
  have hbegin : ∀ r : StocFairQueue, Wf M r → r.quantum = q.quantum → r.nQueue = q.nQueue →
      (r.beginService fuel).isSome = true := by
    intro r hr hrq hrn
    -- every queue lacks at most `M`
    have hmissing : missing M r ≤ r.nQueue * M := by
      have hsum : missing M r ≤ ∑ _i ∈ Finset.range r.nQueue, M :=
        Finset.sum_le_sum fun i _ => Nat.sub_le _ _
      rwa [Finset.sum_const_nat fun _ _ => rfl, Finset.card_range] at hsum
    simp only [beginService]
    by_cases hn : 0 < r.nPackets
    · rw [if_pos hn, Option.isSome_map]
      apply rotate_isSome fuel hr (by omega)
      · exact fun h0 => absurd (hr.listed.nPackets_eq_zero.mpr h0) (by omega)
      · rw [hrn] at hmissing
        omega
    · rw [if_neg hn]
      rfl
  cases a with
  | arrive pkt =>
    obtain ⟨-, hquantum, hnq, -⟩ := @store_fields q pkt
    have hwf := wf_store h.wf (hsize pkt rfl)
    show ((q.receivePacket fuel pkt).map _).isSome = true
    rw [Option.isSome_map, receivePacket]
    split_ifs
    · rfl
    · exact hbegin _ hwf hquantum hnq
    · rfl
  | complete =>
    obtain ⟨k, rest, p, hdue, -, -, hfin⟩ := h.due (hpend rfl)
    obtain ⟨-, -, hquantum, hnq, -⟩ := deactivate_fields (q.dequeue k p) k
    show (q.completeService fuel).isSome = true
    rw [completeService, hfin, Option.bind_some, Option.isSome_map]
    exact hbegin _ (wf_deactivate_dequeue hdue) hquantum hnq

end Handlers

/-! ## Fairness -/

/-- An arriving packet has between 1 and `M` bytes. -/
def SizedBy (M : Nat) (a : Act) : Prop :=
  ∀ pkt, a = .arrive pkt → 1 ≤ pkt.size ∧ pkt.size ≤ M

/-- FIFO queues `i` and `j` are non-empty. -/
def Backlogged (i j : Nat) (s : State) : Prop := s.q.packets i ≠ [] ∧ s.q.packets j ≠ []

instance (i j : Nat) (s : State) : Decidable (Backlogged i j s) :=
  inferInstanceAs (Decidable (_ ∧ _))

theorem serving_step {M fuel : Nat} {s t : State} {a : Act} (h : Serving M s.q)
    (ha : SizedBy M a) (hstep : (system fuel).step s a = some t) :
    Serving M t.q ∧ t.q.quantum = s.q.quantum := by
  obtain ⟨⟨q', l⟩, hr, rfl⟩ := Option.map_eq_some_iff.mp hstep
  cases a with
  | arrive pkt =>
    obtain ⟨r, hrecv, heq⟩ := Option.map_eq_some_iff.mp hr
    cases heq
    obtain ⟨hserv, hquantum, -⟩ := receivePacket_spec h (ha pkt rfl) hrecv
    exact ⟨hserv, hquantum⟩
  | complete =>
    obtain ⟨hserv, hquantum, -⟩ := completeService_spec h hr
    exact ⟨hserv, hquantum⟩

/-- A step moves the completed bytes of `i` less those of `j` against the balance. -/
theorem balance_step {M fuel : Nat} {i j : Nat} {s t : State} {a : Act} (h : Serving M s.q)
    (ha : SizedBy M a) (hs : Backlogged i j s) (ht : Backlogged i j t)
    (hstep : (system fuel).step s a = some t) :
    ((bytesFrom i t.completed : ℤ) - bytesFrom j t.completed) -
      ((bytesFrom i s.completed : ℤ) - bytesFrom j s.completed) =
      -balance i j t.q - -balance i j s.q := by
  obtain ⟨⟨q', l⟩, hr, rfl⟩ := Option.map_eq_some_iff.mp hstep
  simp only [bytesFrom_append]
  cases a with
  | arrive pkt =>
    obtain ⟨r, hrecv, heq⟩ := Option.map_eq_some_iff.mp hr
    cases heq
    obtain ⟨-, -, hbal⟩ := receivePacket_spec h (ha pkt rfl) hrecv
    show _ = -balance i j q' - _
    rw [hbal i j hs.1 hs.2, bytesFrom_nil, bytesFrom_nil]
    omega
  | complete =>
    obtain ⟨-, -, hbal⟩ := completeService_spec h hr
    show _ = -balance i j q' - _
    rw [hbal i j ht.1 ht.2]
    push_cast
    omega

/-- Deficit round robin is fair.  Over any part of a run in which FIFO queues `i` and `j`
    stay non-empty, the bytes completed from them differ by at most a quantum and two
    largest packets, if the credits (`uint32_t`) hold a quantum and a packet. -/
theorem completed_fair (fuel bitrate maxsize nQueue quantum M : Nat) (hqueue : 1 ≤ nQueue)
    (hnowrap : quantum + M ≤ 2 ^ 32) (i j : Nat) (before during : List Act) (s t : State)
    (hsized : ∀ a ∈ before ++ during, SizedBy M a)
    (hbefore : (system fuel).run (init bitrate maxsize nQueue quantum) before = some s)
    (hduring : (system fuel).run s during = some t)
    (hkeep : (system fuel).Always (Backlogged i j) s during) :
    |((bytesFrom i t.completed : ℤ) - bytesFrom i s.completed) -
      ((bytesFrom j t.completed : ℤ) - bytesFrom j s.completed)| ≤ quantum + 2 * M := by
  let Inv : State → Prop := fun u => Serving M u.q ∧ u.q.quantum = quantum
  have hinv : ∀ u a u', Inv u → SizedBy M a → (system fuel).step u a = some u' → Inv u' := by
    intro u a u' hu ha hstep
    obtain ⟨hserv, hquantum⟩ := serving_step hu.1 ha hstep
    exact ⟨hserv, hquantum.trans hu.2⟩
  have hs : Inv s :=
    Lts.run_induction_along (G := fun _ a => SizedBy M a) hinv ⟨serving_new hnowrap hqueue, rfl⟩
      (Lts.along_of_forall_mem fun a ha => hsized a (List.mem_append_left _ ha)) hbefore
  have hguard := hkeep.along.and
    (Lts.along_of_forall_mem fun a ha => hsized a (List.mem_append_right _ ha))
  -- the balance is bounded while both queues are non-empty
  have hdrift : _ ≤ (quantum + M : ℤ) - -(M : ℤ) := Lts.run_drift_bound
    (I := fun u => Inv u ∧ Backlogged i j u)
    (fun u => (bytesFrom i u.completed : ℤ) - bytesFrom j u.completed)
    (fun u => -balance i j u.q)
    (fun u a u' hu ha hstep => ⟨hinv u a u' hu.1 ha.2 hstep, ha.1.2 u' hstep⟩) ?_ ?_
    ⟨hs, hkeep.head⟩ hguard hduring
  · rw [show (quantum : ℤ) + 2 * M = quantum + M - -(M : ℤ) by omega]
    convert hdrift using 2
    omega
  · intro u a u' hu ha hstep
    exact balance_step hu.1.1 ha.2 hu.2 (ha.1.2 u' hstep) hstep
  · intro u hu
    have hbounds := hu.1.1.balance_bounds hu.2.1 hu.2.2
    rw [hu.1.2] at hbounds
    show (_ : ℤ) ≤ _ ∧ (_ : ℤ) ≤ _
    omega

/-- Two queues, a quantum of 500 and packets of 300 and 400 bytes. -/
theorem completed_fair_two :
    ∃ s t : State,
      (system 10).run (init 1000 10000 2 500)
        [.arrive ⟨0, 300, 1, false⟩, .arrive ⟨0, 300, 2, false⟩, .arrive ⟨0, 300, 3, false⟩,
          .arrive ⟨1, 400, 1, false⟩, .arrive ⟨1, 400, 2, false⟩] = some s ∧
      (system 10).run s [.complete, .complete] = some t ∧
      |((bytesFrom 0 t.completed : ℤ) - bytesFrom 0 s.completed) -
        ((bytesFrom 1 t.completed : ℤ) - bytesFrom 1 s.completed)| ≤ (500 : ℕ) + 2 * (400 : ℕ) := by
  refine ⟨((system 10).run _ _).get (by decide +kernel),
    ((system 10).run _ _).get (by decide +kernel), (Option.some_get _).symm,
    (Option.some_get _).symm,
    completed_fair 10 1000 10000 2 500 400 (by decide) (by decide) 0 1 _ _ _ _ ?_
      (Option.some_get _).symm (Option.some_get _).symm ?_⟩
  · intro a ha pkt hpkt
    subst hpkt
    simp only [List.cons_append, List.nil_append, List.mem_cons, Act.arrive.injEq, reduceCtorEq,
      or_false, List.not_mem_nil] at ha
    rcases ha with rfl | rfl | rfl | rfl | rfl <;> decide
  · decide +kernel

/-- Without room for a quantum and a packet in 32 bits a rotation can wrap the credit of a
    queue: here queue 1 loses 2³² of it twice, and queue 0 has two turns in a row. -/
theorem completed_unfair_of_wrap :
    ∃ (before during : List Act) (s t : State),
      (∀ a ∈ before ++ during, SizedBy 2147483647 a) ∧
      (system 10).run (init 1000 (2 ^ 40) 2 4294967295) before = some s ∧
      (system 10).run s during = some t ∧
      (system 10).Always (Backlogged 0 1) s during ∧
      (4294967295 + 2 * 2147483647 : ℤ) <
        |((bytesFrom 0 t.completed : ℤ) - bytesFrom 0 s.completed) -
          ((bytesFrom 1 t.completed : ℤ) - bytesFrom 1 s.completed)| := by
  refine ⟨[.arrive ⟨1, 2147483647, 1, false⟩, .arrive ⟨1, 2, 2, false⟩,
      .arrive ⟨1, 2147483647, 3, false⟩, .arrive ⟨0, 1431655765, 1, false⟩,
      .arrive ⟨0, 1431655765, 2, false⟩, .arrive ⟨0, 1431655765, 3, false⟩,
      .arrive ⟨0, 1431655765, 4, false⟩, .arrive ⟨0, 1431655765, 5, false⟩,
      .arrive ⟨0, 1431655765, 6, false⟩, .arrive ⟨0, 1431655765, 7, false⟩,
      .complete, .complete],
    List.replicate 6 .complete, ((system 10).run _ _).get (by decide +kernel),
    ((system 10).run _ _).get (by decide +kernel), ?_, (Option.some_get _).symm,
    (Option.some_get _).symm, by decide +kernel, by decide +kernel⟩
  intro a ha pkt hpkt
  subst hpkt
  simp only [List.replicate, List.cons_append, List.nil_append, List.mem_cons,
    Act.arrive.injEq, reduceCtorEq, or_false, List.not_mem_nil] at ha
  rcases ha with rfl | rfl | rfl | rfl | rfl | rfl | rfl | rfl | rfl | rfl <;> decide

end StocFairQueue
end Htsim
end DatacenterNetworking
