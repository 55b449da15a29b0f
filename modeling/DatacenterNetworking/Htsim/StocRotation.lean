/-
  DatacenterNetworking.Htsim.StocRotation

  The loop of `StocFairQueue::beginService` has no counter.  `_credits` are 32-bit and
  the sizes of packets are not, so a queue may be granted quanta for ever and never be
  able to pay.

  `Payable`: for some active queue there is a number of quanta after which its credit,
  modulo 2^32, covers its next packet.  The loop stops exactly then: `n` quanta and `r`
  places before the front, the queue is at most `n * l + r` rounds away, with `l` the
  length of the list.  Packets of up to 2^31 bytes are always covered in the end: from
  below 2^31 no quantum leads past the upper half of the 32 bits.  On the way a credit
  may wrap.
-/

import DatacenterNetworking.Htsim.StocFairQueue

namespace DatacenterNetworking
namespace Htsim
namespace StocFairQueue

/-- The credit of queue `i` after `n` more quanta. -/
def afterQuanta (q : StocFairQueue) (i n : Nat) : Nat :=
  (q.credits i + n * q.quantum) % 2 ^ 32

/-- An active queue can pay for its next packet after some quanta. -/
def Payable (q : StocFairQueue) : Prop :=
  ∃ i ∈ q.activeQ, ∃ p, (q.packets i).getLast? = some p ∧ ∃ n, p.size ≤ q.afterQuanta i n

/-- Credits and quantum are `uint32_t`. -/
structure Words (q : StocFairQueue) : Prop where
  credits : ∀ i, q.credits i < 2 ^ 32
  quantum : q.quantum < 2 ^ 32

/-- What the loop leaves: the list is turned, queue `i` has got `bumps i` quanta, each when it
    could not pay, nothing else is changed, and the queue at the front can pay. -/
structure Settled (q q' : StocFairQueue) (n : Nat) (bumps : Nat → Nat) : Prop where
  eq : q' = { q with
    activeQ := q.activeQ.rotate n
    credits := fun i => q.afterQuanta i (bumps i) }
  short : ∀ i m, m < bumps i → i ∈ q.activeQ ∧
    ∃ p, (q.packets i).getLast? = some p ∧ q.afterQuanta i m < p.size
  front : ∃ i p, q'.activeQ.head? = some i ∧ (q'.packets i).getLast? = some p ∧
    p.size ≤ q'.credits i

/-- The loop stops, and has then settled the service. -/
def Settles (q : StocFairQueue) : Prop :=
  ∃ rounds q', rotate rounds q = some q' ∧ ∃ n bumps, Settled q q' n bumps

variable {q q' : StocFairQueue} {k : Nat} {rest : List Nat}

theorem Words.afterQuanta_zero (h : Words q) (i : Nat) : q.afterQuanta i 0 = q.credits i := by
  rw [afterQuanta, Nat.zero_mul, Nat.add_zero, Nat.mod_eq_of_lt (h.credits i)]

theorem words_bump (h : Words q) (k : Nat) (rest : List Nat) : Words (q.bump k rest) where
  credits := fun i => by
    show Function.update q.credits k _ i < _
    by_cases hi : i = k
    · rw [hi, Function.update_self]
      exact Nat.mod_lt _ (by decide)
    · rw [Function.update_of_ne hi]
      exact h.credits i
  quantum := h.quantum

/-- While the credit is short of a size that leaves room for a quantum, no quantum wraps. -/
theorem afterQuanta_of_short (h : Words q) {i n size : Nat} (hroom : size + q.quantum ≤ 2 ^ 32)
    (hshort : ∀ m < n, q.afterQuanta i m < size) :
    q.afterQuanta i n = q.credits i + n * q.quantum := by
  induction n with
  | zero => rw [h.afterQuanta_zero, Nat.zero_mul, Nat.add_zero]
  | succ n ih =>
    have hlow := hshort n (Nat.lt_succ_self n)
    rw [ih fun m hm => hshort m (Nat.lt_succ_of_lt hm)] at hlow
    rw [afterQuanta, Nat.mod_eq_of_lt (by rw [Nat.succ_mul]; omega)]

/-- A bumped queue has one quantum behind it, the others none. -/
theorem afterQuanta_bump (i n : Nat) :
    (q.bump k rest).afterQuanta i n = q.afterQuanta i (if i = k then n + 1 else n) := by
  show (Function.update q.credits k ((q.credits k + q.quantum) % 2 ^ 32) i + n * q.quantum) %
    2 ^ 32 = _
  by_cases hi : i = k
  · rw [hi, Function.update_self, if_pos rfl, afterQuanta, Nat.mod_add_mod, Nat.succ_mul,
      Nat.add_assoc, Nat.add_comm q.quantum]
  · rw [Function.update_of_ne hi, if_neg hi, afterQuanta]

/-- One round, and the rest of the loop. -/
theorem settled_bump (hw : Words q) (hact : q.activeQ = k :: rest) {p : Packet}
    (hp : (q.packets k).getLast? = some p) (hlow : q.credits k < p.size) {n : Nat}
    {bumps : Nat → Nat} (h : Settled (q.bump k rest) q' n bumps) :
    Settled q q' (n + 1) (Function.update bumps k (bumps k + 1)) where
  eq := by
    have hlist : (rest ++ [k]).rotate n = q.activeQ.rotate (n + 1) := by
      rw [hact, List.rotate_cons_succ]
    have hcredits : (fun i => (q.bump k rest).afterQuanta i (bumps i)) =
        fun i => q.afterQuanta i (Function.update bumps k (bumps k + 1) i) := by
      funext i
      rw [afterQuanta_bump]
      by_cases hi : i = k
      · rw [hi, if_pos rfl, Function.update_self]
      · rw [if_neg hi, Function.update_of_ne hi]
    rw [h.eq, ← hlist, ← hcredits]
    rfl
  -- the queue bumped was short in this round too; the others as in the rest
  short := fun i m hm => by
    by_cases hi : i = k
    · subst hi
      rw [Function.update_self] at hm
      have hmem : i ∈ q.activeQ := by rw [hact]; exact List.mem_cons_self
      refine ⟨hmem, p, hp, ?_⟩
      cases m with
      | zero =>
        rw [hw.afterQuanta_zero]
        exact hlow
      | succ m =>
        obtain ⟨-, p', hp', hshort⟩ := h.short i m (by omega)
        replace hp' : (q.packets i).getLast? = some p' := hp'
        rw [afterQuanta_bump, if_pos rfl] at hshort
        obtain rfl : p = p' := Option.some.inj (hp.symm.trans hp')
        exact hshort
    · rw [Function.update_of_ne hi] at hm
      obtain ⟨hmem, p', hp', hshort⟩ := h.short i m hm
      rw [afterQuanta_bump, if_neg hi] at hshort
      exact ⟨(mem_activeQ_bump hact i).mp hmem, p', hp', hshort⟩
  front := h.front

/-- The loop, when it stops. -/
theorem rotate_settles (fuel : Nat) (hw : Words q) (hrot : rotate fuel q = some q') :
    ∃ n bumps, Settled q q' n bumps := by
  -- each round is one rotation of the list and one bump of its front
  induction fuel generalizing q with
  | zero => cases hrot
  | succ fuel ih =>
    cases hact : q.activeQ with
    | nil =>
      rw [rotate, hact] at hrot
      cases hrot
    | cons k rest =>
      rw [rotate, hact] at hrot
      cases hp : (q.packets k).getLast? with
      | none =>
        simp only [hp] at hrot
        cases hrot
      | some p =>
        simp only [hp] at hrot
        by_cases hlow : q.credits k < p.size
        · rw [if_pos hlow] at hrot
          obtain ⟨n, bumps, hsettled⟩ := ih (words_bump hw k rest) hrot
          exact ⟨_, _, settled_bump hw hact hp hlow hsettled⟩
        · rw [if_neg hlow] at hrot
          cases hrot
          refine ⟨0, fun _ => 0, ?_, fun i m hm => absurd hm (Nat.not_lt_zero m), ?_⟩
          · simp only [List.rotate_zero, hw.afterQuanta_zero]
          · exact ⟨k, p, by rw [hact]; rfl, hp, not_lt.mp hlow⟩

/-- The queue that can pay stops the loop, if no other does before. -/
theorem rotate_isSome_of_payable (fuel : Nat) {i n : Nat} {p : Packet} (hw : Words q)
    (hback : ∀ j ∈ q.activeQ, ∃ x, (q.packets j).getLast? = some x) (hi : i ∈ q.activeQ)
    (hp : (q.packets i).getLast? = some p) (hpay : p.size ≤ q.afterQuanta i n)
    (hfuel : n * q.activeQ.length + q.activeQ.idxOf i < fuel) :
    (rotate fuel q).isSome = true := by
  -- the queue that can pay after `n` quanta comes nearer, by place or by quantum
  induction fuel generalizing q n with
  | zero => exact absurd hfuel (Nat.not_lt_zero _)
  | succ fuel ih =>
    cases hact : q.activeQ with
    | nil =>
      rw [hact] at hi
      exact absurd hi List.not_mem_nil
    | cons k rest =>
      obtain ⟨x, hx⟩ := hback k (by rw [hact]; exact List.mem_cons_self)
      rw [rotate, hact]
      simp only [hx]
      by_cases hlow : q.credits k < x.size
      · rw [if_pos hlow]
        have hlist : (q.bump k rest).activeQ = rest ++ [k] := rfl
        have hlen : (q.bump k rest).activeQ.length = q.activeQ.length := by
          rw [hlist, hact, List.length_append, List.length_singleton, List.length_cons]
        have hmem : i ∈ (q.bump k rest).activeQ := (mem_activeQ_bump hact i).mpr hi
        have hback' : ∀ j ∈ (q.bump k rest).activeQ, ∃ y,
            ((q.bump k rest).packets j).getLast? = some y :=
          fun j hj => hback j ((mem_activeQ_bump hact j).mp hj)
        have hidx := List.idxOf_lt_length_of_mem hmem
        by_cases hik : i = k
        · -- it has one quantum less to wait for, from the end of the list
          subst hik
          obtain rfl : p = x := Option.some.inj (hp.symm.trans hx)
          cases n with
          | zero =>
            rw [hw.afterQuanta_zero] at hpay
            omega
          | succ n =>
            refine ih (n := n) (words_bump hw i rest) hback' hmem hp ?_ ?_
            · rw [afterQuanta_bump, if_pos rfl]
              exact hpay
            · rw [hlen] at hidx ⊢
              rw [Nat.succ_mul] at hfuel
              omega
        · -- it is one place nearer to the front
          have hir : i ∈ rest := by
            rw [hact] at hi
            exact (List.mem_cons.mp hi).resolve_left hik
          refine ih (n := n) (words_bump hw k rest) hback' hmem hp ?_ ?_
          · rw [afterQuanta_bump, if_neg hik]
            exact hpay
          · have hplace : q.activeQ.idxOf i = rest.idxOf i + 1 := by
              rw [hact, List.idxOf_cons_ne _ (Ne.symm hik)]
            rw [hlen, hlist, List.idxOf_append_of_mem hir]
            omega
      · rw [if_neg hlow]
        rfl

/-- The loop stops if and only if an active queue can pay after some quanta. -/
theorem settles_iff_payable (hw : Words q) (hl : Listed q) : Settles q ↔ Payable q := by
  constructor
  · rintro ⟨fuel, q', -, n, bumps, hsettled⟩
    obtain ⟨i, p, hhead, hp, hpay⟩ := hsettled.front
    rw [hsettled.eq] at hhead hp hpay
    have hmem := List.mem_of_mem_head? hhead
    exact ⟨i, List.mem_rotate.mp hmem, p, hp, bumps i, hpay⟩
  · rintro ⟨i, hi, p, hp, n, hpay⟩
    have hback : ∀ j ∈ q.activeQ, ∃ x, (q.packets j).getLast? = some x := by
      intro j hj
      obtain ⟨x, hx, -⟩ := hl.back hj
      exact ⟨x, hx⟩
    have hsome := rotate_isSome_of_payable _ hw hback hi hp hpay (Nat.lt_succ_self _)
    obtain ⟨q', hrot⟩ := Option.isSome_iff_exists.mp hsome
    exact ⟨_, q', hrot, rotate_settles _ hw hrot⟩

/-! ## Packets of at most 2^31 bytes -/

/-- A small quantum: the credit grows, and cannot pass over the upper half of the 32 bits. -/
theorem exists_covering_of_le {c quantum size : Nat} (hc : c < 2 ^ 32) (hpos : 1 ≤ quantum)
    (hsmall : quantum ≤ 2 ^ 31) (hsize : size ≤ 2 ^ 31) :
    ∃ n, size ≤ (c + n * quantum) % 2 ^ 32 := by
  by_contra hnone
  have hshort : ∀ n, (c + n * quantum) % 2 ^ 32 < size := fun n =>
    not_le.mp fun hle => hnone ⟨n, hle⟩
  have hgrows : ∀ n, c + n * quantum < 2 ^ 31 := by
    intro n
    induction n with
    | zero =>
      have h0 := hshort 0
      rw [Nat.zero_mul, Nat.add_zero, Nat.mod_eq_of_lt hc] at h0
      omega
    | succ n ih =>
      have hn := hshort (n + 1)
      rw [Nat.succ_mul] at hn ⊢
      rw [Nat.mod_eq_of_lt (by omega)] at hn
      omega
  have hlast := hgrows (2 ^ 31)
  have hmany : 2 ^ 31 * 1 ≤ 2 ^ 31 * quantum := Nat.mul_le_mul_left _ hpos
  omega

/-- A large quantum is a step down modulo 2^32, which has to turn into a wrap. -/
theorem exists_covering_of_gt {c quantum size : Nat} (hc : c < 2 ^ 32)
    (hword : quantum < 2 ^ 32) (hlarge : 2 ^ 31 < quantum) (hsize : size ≤ 2 ^ 31) :
    ∃ n, size ≤ (c + n * quantum) % 2 ^ 32 := by
  by_contra hnone
  have hshort : ∀ n, (c + n * quantum) % 2 ^ 32 < size := fun n =>
    not_le.mp fun hle => hnone ⟨n, hle⟩
  have hfalls : ∀ n, n * (2 ^ 32 - quantum) ≤ c ∧
      (c + n * quantum) % 2 ^ 32 = c - n * (2 ^ 32 - quantum) := by
    intro n
    induction n with
    | zero =>
      rw [Nat.zero_mul, Nat.zero_mul, Nat.add_zero, Nat.mod_eq_of_lt hc]
      exact ⟨Nat.zero_le _, rfl⟩
    | succ n ih =>
      obtain ⟨hle, heq⟩ := ih
      have hn := hshort (n + 1)
      rw [Nat.succ_mul, ← Nat.add_assoc, ← Nat.mod_add_mod, heq] at hn
      rw [Nat.succ_mul, Nat.succ_mul n quantum, ← Nat.add_assoc, ← Nat.mod_add_mod, heq]
      omega
  have hlast := (hfalls (c + 1)).1
  have hmany : (c + 1) * 1 ≤ (c + 1) * (2 ^ 32 - quantum) :=
    Nat.mul_le_mul_left _ (by omega)
  omega

/-- Some number of quanta brings a credit to the upper half of the 32 bits. -/
theorem exists_covering {c quantum size : Nat} (hc : c < 2 ^ 32) (hpos : 1 ≤ quantum)
    (hword : quantum < 2 ^ 32) (hsize : size ≤ 2 ^ 31) :
    ∃ n, size ≤ (c + n * quantum) % 2 ^ 32 := by
  by_cases hsmall : quantum ≤ 2 ^ 31
  · exact exists_covering_of_le hc hpos hsmall hsize
  · exact exists_covering_of_gt hc hword (not_le.mp hsmall) hsize

/-- Packets of at most 2^31 bytes are stored. -/
def Narrow (q : StocFairQueue) : Prop := ∀ i, ∀ p ∈ q.packets i, p.size ≤ 2 ^ 31

/-- Any active queue can pay for such a packet in the end. -/
theorem payable_of_narrow (hw : Words q) (hl : Listed q) (hne : q.activeQ ≠ [])
    (hpos : 1 ≤ q.quantum) (hsmall : Narrow q) : Payable q := by
  obtain ⟨i, hi⟩ := List.exists_mem_of_ne_nil _ hne
  obtain ⟨p, hp, -⟩ := hl.back hi
  obtain ⟨n, hn⟩ := exists_covering (hw.credits i) hpos hw.quantum
    (hsmall i p (List.mem_of_getLast? hp))
  exact ⟨i, hi, p, hp, n, hn⟩

/-! ## Packets that fit

With packets that leave room for a quantum in 32 bits no credit wraps. -/

/-- The next packet of every active queue leaves room for a quantum. -/
def Fits (q : StocFairQueue) : Prop :=
  ∀ i ∈ q.activeQ, ∀ p, (q.packets i).getLast? = some p → p.size + q.quantum ≤ 2 ^ 32

/-- The credits are granted in full. -/
theorem Settled.credits_eq {n : Nat} {bumps : Nat → Nat} (h : Settled q q' n bumps)
    (hw : Words q) (hfits : Fits q) (i : Nat) :
    q'.credits i = q.credits i + bumps i * q.quantum := by
  rw [h.eq]
  show q.afterQuanta i (bumps i) = _
  rcases Nat.eq_zero_or_pos (bumps i) with hzero | hpos
  · rw [hzero, hw.afterQuanta_zero, Nat.zero_mul, Nat.add_zero]
  · obtain ⟨hi, p, hp, -⟩ := h.short i 0 hpos
    refine afterQuanta_of_short hw (hfits i hi p hp) fun m hm => ?_
    obtain ⟨-, p', hp', hshort⟩ := h.short i m hm
    obtain rfl : p = p' := Option.some.inj (hp.symm.trans hp')
    exact hshort

/-- Any active queue can then pay in the end. -/
theorem payable_of_fits (hw : Words q) (hl : Listed q) (hne : q.activeQ ≠ [])
    (hpos : 1 ≤ q.quantum) (hfits : Fits q) : Payable q := by
  obtain ⟨i, hi⟩ := List.exists_mem_of_ne_nil _ hne
  obtain ⟨p, hp, -⟩ := hl.back hi
  refine ⟨i, hi, p, hp, ?_⟩
  by_contra hshort
  have hroom := hfits i hi p hp
  have hlows : ∀ n, q.afterQuanta i n < p.size := fun n =>
    not_le.mp fun hle => hshort ⟨n, hle⟩
  -- its credit grows without end
  have hlow := hlows p.size
  rw [afterQuanta_of_short hw hroom fun m _ => hlows m] at hlow
  have hmany : p.size * 1 ≤ p.size * q.quantum := Nat.mul_le_mul_left _ hpos
  omega

/-! ## Reachable states -/

/-- The lists and the words of a queue with quantum `quantum`. -/
structure Kept (quantum : Nat) (q : StocFairQueue) : Prop where
  listed : Listed q
  words : Words q
  quantum_eq : q.quantum = quantum

theorem Kept.settled {quantum n : Nat} {bumps : Nat → Nat} (h : Kept quantum q)
    (hsettled : Settled q q' n bumps) : Kept quantum q' := by
  rw [hsettled.eq]
  refine ⟨?_, ⟨fun i => Nat.mod_lt _ (by decide), h.words.quantum⟩, h.quantum_eq⟩
  exact
    { nQueue_pos := h.listed.nQueue_pos
      nodup := List.nodup_rotate.mpr h.listed.nodup
      mem_iff := fun i => List.mem_rotate.trans (h.listed.mem_iff i)
      isActive := h.listed.isActive
      lt := fun i hi => h.listed.lt i (List.mem_rotate.mp hi)
      total := h.listed.total }

theorem Kept.beginService {quantum fuel : Nat} (h : Kept quantum q)
    (hbegin : q.beginService fuel = some q') : Kept quantum q' := by
  unfold StocFairQueue.beginService at hbegin
  split_ifs at hbegin
  · obtain ⟨r, hrot, rfl⟩ := Option.map_eq_some_iff.mp hbegin
    obtain ⟨n, bumps, hsettled⟩ := rotate_settles fuel h.words hrot
    have hr := h.settled hsettled
    exact ⟨{ hr.listed with }, { hr.words with }, hr.quantum_eq⟩
  · cases hbegin
    exact h

theorem Kept.store {quantum : Nat} (h : Kept quantum q) (pkt : Packet) :
    Kept quantum (q.store pkt) := by
  obtain ⟨-, hquantum, -, -⟩ := @store_fields q pkt
  refine ⟨listed_store h.listed pkt, ⟨fun i => ?_, by rw [hquantum]; exact h.words.quantum⟩,
    hquantum.trans h.quantum_eq⟩
  by_cases hact : q.isActive (q.queueOf pkt) = true
  · rw [(store_of_active hact).2.2.2]
    exact h.words.credits i
  · rw [(store_of_inactive hact).2.2.2]
    by_cases hi : i = q.queueOf pkt
    · rw [hi, Function.update_self]
      exact h.words.quantum
    · rw [Function.update_of_ne hi]
      exact h.words.credits i

theorem Kept.finishService {quantum : Nat} (h : Kept quantum q)
    {r : StocFairQueue × Nat × Packet} (hr : q.finishService = some r) : Kept quantum r.1 := by
  obtain ⟨-, -, k, rest, p, hact, -, heq⟩ := finishService_eq_some hr
  obtain ⟨-, -, hquantum, -, -⟩ := deactivate_fields (q.dequeue k p) k
  rw [heq]
  refine ⟨listed_dequeue h.listed hact p, ⟨fun i => ?_, by rw [hquantum]; exact h.words.quantum⟩,
    hquantum.trans h.quantum_eq⟩
  by_cases hi : i = k
  · subst hi
    rcases deactivate_dequeue hact p with ⟨-, -, -, hc⟩ | ⟨-, -, -, hc⟩
    · rw [hc, Function.update_self]
      exact Nat.two_pow_pos 32
    · rw [hc]
      show Function.update q.credits i (sub32 _ _) i < _
      rw [Function.update_self]
      exact Nat.mod_lt _ (Nat.two_pow_pos 32)
  · rw [credits_dequeue_of_ne hact p hi]
    exact h.words.credits i

/-- The state in which a handler call runs `beginService`. -/
def started (q : StocFairQueue) : Act → Option StocFairQueue
  | .arrive pkt =>
      if q.maxsize < Word.add 64 q.queuesize pkt.size then none
      else if q.nPackets = 0 then some (q.store pkt) else none
  | .complete => q.finishService.map Prod.fst

/-- The rest of the handler call. -/
theorem handle_of_started {u : StocFairQueue} {a : Act} (fuel : Nat) (h : q.started a = some u) :
    (q.handle fuel a).map Prod.fst = u.beginService fuel := by
  cases a with
  | arrive pkt =>
    simp only [started] at h
    split_ifs at h with hfull hempty
    cases h
    simp only [handle, receivePacket, if_neg hfull, if_pos hempty, Option.map_map]
    exact Option.map_id'
  | complete =>
    obtain ⟨r, hr, rfl⟩ := Option.map_eq_some_iff.mp h
    simp only [handle, completeService, hr, Option.bind_some, Option.map_map]
    exact Option.map_id'

/-- A handler call that starts no service drops the packet or stores it. -/
theorem handle_of_not_started {fuel : Nat} {a : Act} {r : StocFairQueue × List (Nat × Packet)}
    (h : q.started a = none) (hr : q.handle fuel a = some r) :
    r.1 = q ∨ ∃ pkt, a = .arrive pkt ∧ r.1 = q.store pkt := by
  cases a with
  | arrive pkt =>
    simp only [started] at h
    simp only [handle, receivePacket] at hr
    split_ifs at h hr
    · cases hr
      exact Or.inl rfl
    · cases hr
      exact Or.inr ⟨pkt, rfl, rfl⟩
  | complete =>
    simp only [started, Option.map_eq_none_iff] at h
    simp only [handle, completeService, h] at hr
    cases hr

theorem Kept.started {quantum : Nat} (h : Kept quantum q) {u : StocFairQueue} {a : Act}
    (hstart : q.started a = some u) : Kept quantum u := by
  cases a with
  | arrive pkt =>
    simp only [StocFairQueue.started] at hstart
    split_ifs at hstart
    cases hstart
    exact h.store pkt
  | complete =>
    obtain ⟨r, hr, rfl⟩ := Option.map_eq_some_iff.mp hstart
    exact h.finishService hr

theorem Kept.step {quantum fuel : Nat} {s t : State} {a : Act} (h : Kept quantum s.q)
    (hstep : (system fuel).step s a = some t) : Kept quantum t.q := by
  obtain ⟨r, hr, rfl⟩ := Option.map_eq_some_iff.mp hstep
  cases hstart : s.q.started a with
  | some u =>
    have hbegin := handle_of_started fuel hstart
    rw [hr] at hbegin
    exact (h.started hstart).beginService hbegin.symm
  | none =>
    rcases handle_of_not_started hstart hr with heq | ⟨pkt, -, heq⟩
    · rw [heq]
      exact h
    · rw [heq]
      exact h.store pkt

theorem Narrow.started {u : StocFairQueue} {a : Act} (h : Narrow q)
    (ha : ∀ pkt, a = .arrive pkt → pkt.size ≤ 2 ^ 31) (hstart : q.started a = some u) :
    Narrow u := by
  cases a with
  | arrive pkt =>
    simp only [StocFairQueue.started] at hstart
    split_ifs at hstart
    cases hstart
    exact sizes_store h (ha pkt rfl)
  | complete =>
    obtain ⟨r, hr, rfl⟩ := Option.map_eq_some_iff.mp hstart
    obtain ⟨-, -, k, rest, p, -, -, heq⟩ := finishService_eq_some hr
    rw [heq]
    exact sizes_dequeue h p

theorem Narrow.step {fuel : Nat} {s t : State} {a : Act} (h : Narrow s.q)
    (ha : ∀ pkt, a = .arrive pkt → pkt.size ≤ 2 ^ 31)
    (hstep : (system fuel).step s a = some t) : Narrow t.q := by
  obtain ⟨r, hr, rfl⟩ := Option.map_eq_some_iff.mp hstep
  cases hstart : s.q.started a with
  | some u =>
    have hbegin := handle_of_started fuel hstart
    rw [hr] at hbegin
    have hu := h.started ha hstart
    rw [Narrow, ← (beginService_packets hbegin.symm).1] at hu
    exact hu
  | none =>
    rcases handle_of_not_started hstart hr with heq | ⟨pkt, hpkt, heq⟩
    · rw [heq]
      exact h
    · rw [heq]
      exact sizes_store h (ha pkt hpkt)

theorem narrow_of_run {fuel bitrate maxsize nQueue quantum : Nat} {as : List Act} {s : State}
    (hsmall : ∀ pkt, .arrive pkt ∈ as → pkt.size ≤ 2 ^ 31)
    (hrun : (system fuel).run (init bitrate maxsize nQueue quantum) as = some s) : Narrow s.q :=
  Lts.run_induction_along (I := fun u => Narrow u.q)
    (G := fun _ a => ∀ pkt, a = .arrive pkt → pkt.size ≤ 2 ^ 31)
    (fun _ _ _ hu ha hstep => hu.step ha hstep) (fun _ _ hp => absurd hp List.not_mem_nil)
    (Lts.along_of_forall_mem fun a ha pkt hpkt => hsmall pkt (by rw [← hpkt]; exact ha)) hrun

theorem kept_of_run {fuel bitrate maxsize nQueue quantum : Nat} (hqueue : 1 ≤ nQueue)
    (hword : quantum < 2 ^ 32) {as : List Act} {s : State}
    (hrun : (system fuel).run (init bitrate maxsize nQueue quantum) as = some s) :
    Kept quantum s.q :=
  Lts.run_induction (I := fun u => Kept quantum u.q) (fun _ _ _ hu hstep => hu.step hstep)
    ⟨listed_new hqueue, ⟨fun _ => Nat.two_pow_pos 32, hword⟩, rfl⟩ hrun

/-- Wherever a handler call runs `beginService` with packets stored, and no packet is larger
    than 2^31 bytes, its loop stops.  It has then only turned the list and granted quanta,
    modulo 2^32, to queues that could not pay.  With packets of any size it stops if and only
    if an active queue can pay after some quanta, and with packets that leave room for a
    quantum in 32 bits the credits have grown by multiples of the quantum. -/
theorem beginService_settles_iff (fuel bitrate maxsize nQueue quantum : Nat)
    (hqueue : 1 ≤ nQueue) (hquantum : 1 ≤ quantum) (hword : quantum < 2 ^ 32)
    (as : List Act) (s : State) (a : Act) (u : StocFairQueue)
    (hrun : (system fuel).run (init bitrate maxsize nQueue quantum) as = some s)
    (hstart : s.q.started a = some u) (hn : 0 < u.nPackets) :
    ((∀ pkt, .arrive pkt ∈ as ++ [a] → pkt.size ≤ 2 ^ 31) → Settles u) ∧
      (Settles u ↔ Payable u) ∧
      (Fits u → ∃ rounds u', rotate rounds u = some u' ∧ ∃ n bumps, Settled u u' n bumps ∧
        ∀ i, u'.credits i = u.credits i + bumps i * quantum) := by
  have hkept := (kept_of_run hqueue hword hrun).started hstart
  have hiff := settles_iff_payable hkept.words hkept.listed
  have hne : u.activeQ ≠ [] := fun hnil => hn.ne' (hkept.listed.nPackets_eq_zero.mpr hnil)
  have hpos : 1 ≤ u.quantum := hquantum.trans hkept.quantum_eq.ge
  refine ⟨fun hsmall => ?_, hiff, fun hfits => ?_⟩
  · have hnarrow : Narrow s.q :=
      narrow_of_run (fun pkt hpkt => hsmall pkt (List.mem_append_left _ hpkt)) hrun
    refine hiff.mpr (payable_of_narrow hkept.words hkept.listed hne hpos
      (hnarrow.started (fun pkt hpkt => hsmall pkt ?_) hstart))
    rw [hpkt]
    exact List.mem_append_right _ List.mem_cons_self
  · obtain ⟨rounds, u', hrot, n, bumps, hsettled⟩ :=
      hiff.mpr (payable_of_fits hkept.words hkept.listed hne hpos hfits)
    refine ⟨rounds, u', hrot, n, bumps, hsettled, fun i => ?_⟩
    rw [hsettled.credits_eq hkept.words hfits i, hkept.quantum_eq]

/-- The first packet leaves, and both queues are short of credit. -/
theorem beginService_settles_iff_two :
    ∃ s u, (system 20).run (init 1000 10000 2 500)
        [.arrive ⟨0, 300, 1, false⟩, .arrive ⟨0, 1500, 2, false⟩, .arrive ⟨1, 1400, 1, false⟩] =
          some s ∧ s.q.started .complete = some u ∧
      Settles u ∧ (Settles u ↔ Payable u) ∧
      (Fits u → ∃ rounds u', rotate rounds u = some u' ∧ ∃ n bumps, Settled u u' n bumps ∧
        ∀ i, u'.credits i = u.credits i + bumps i * 500) := by
  obtain ⟨hsettles, hrest⟩ := beginService_settles_iff 20 1000 10000 2 500 (by decide)
    (by decide) (by decide)
    [.arrive ⟨0, 300, 1, false⟩, .arrive ⟨0, 1500, 2, false⟩, .arrive ⟨1, 1400, 1, false⟩]
    (((system 20).run _ _).get (by decide +kernel)) .complete
    ((started _ .complete).get (by decide +kernel)) (Option.some_get _).symm
    (Option.some_get _).symm (by decide +kernel)
  refine ⟨_, _, (Option.some_get _).symm, (Option.some_get _).symm, hsettles fun pkt hpkt => ?_,
    hrest⟩
  simp only [List.cons_append, List.nil_append, List.mem_cons, Act.arrive.injEq, reduceCtorEq,
    or_false, List.not_mem_nil] at hpkt
  rcases hpkt with rfl | rfl | rfl <;> decide

/-- With a quantum of 3 * 2^30 bytes a packet of 2^31 - 1 leaves a credit that does not cover
    the next one, and the second quantum granted then makes the credit wrap. -/
theorem beginService_wraps :
    ¬ ∀ (fuel bitrate maxsize nQueue quantum : Nat) (as : List Act) (s : State) (a : Act)
        (u : StocFairQueue),
      1 ≤ nQueue → 1 ≤ quantum → quantum < 2 ^ 32 →
      (system fuel).run (init bitrate maxsize nQueue quantum) as = some s →
      s.q.started a = some u → 0 < u.nPackets →
      ∃ rounds u', rotate rounds u = some u' ∧ ∃ n bumps, Settled u u' n bumps ∧
        ∀ i, u'.credits i = u.credits i + bumps i * quantum := by
  intro hall
  let s := ((system 5).run (init 1000 (2 ^ 33) 1 (3 * 2 ^ 30))
    [.arrive ⟨1, 2 ^ 31 - 1, 1, false⟩, .arrive ⟨1, 2 ^ 31 - 1, 2, false⟩]).get
      (by decide +kernel)
  let u := (s.q.started .complete).get (by decide +kernel)
  obtain ⟨rounds, u', -, n, bumps, hsettled, hexact⟩ := hall 5 1000 (2 ^ 33) 1 (3 * 2 ^ 30) _ s
    .complete u (by decide) (by decide) (by decide) (Option.some_get _).symm
    (Option.some_get _).symm (by decide +kernel)
  have hact : u.activeQ = [0] := by decide +kernel
  have hcredit : u.credits 0 = 2 ^ 30 + 1 := by decide +kernel
  have hnext : (u.packets 0).getLast? = some ⟨1, 2 ^ 31 - 1, 2, false⟩ := by decide +kernel
  obtain ⟨i, p, hhead, hp, hpay⟩ := hsettled.front
  have hword : u'.credits 0 < 2 ^ 32 := by
    rw [hsettled.eq]
    exact Nat.mod_lt _ (Nat.two_pow_pos 32)
  rw [hsettled.eq] at hhead hp
  dsimp only at hhead hp
  rw [hact, List.rotate_singleton] at hhead
  cases hhead
  rw [hnext] at hp
  cases hp
  -- the credit must grow to pay, and has no room for a quantum
  rw [hexact, hcredit] at hpay hword
  have hcovers : 2 ^ 31 - 1 ≤ 2 ^ 30 + 1 + bumps 0 * (3 * 2 ^ 30) := hpay
  omega

end StocFairQueue
end Htsim
end DatacenterNetworking
