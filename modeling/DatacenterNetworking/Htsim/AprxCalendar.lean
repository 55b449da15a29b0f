/-
  DatacenterNetworking.Htsim.AprxCalendar

  Is `AprxFairQueue` a calendar queue?  `_currQ` goes round the FIFOs with `_nRounds`,
  a packet of round `r` is meant for FIFO `r % nQueue`, and the rounds of the packets
  stored are never `nQueue` or more apart.  The queue is related to `Lib.Calendar` by
  `State.abs`: storing a packet is `insert`, completing one is `serve`, and each round
  of the loop of `beginService` is `advance`.

  `outQ` is computed in 32 bits before it is compared with `nQueue`.  `Fits` says that
  the sum does not wrap, which only an `nQueue` above `2^31` makes possible;
  `calendar_iff_fits` says that this is all that can go wrong.
-/

import DatacenterNetworking.Htsim.AprxFairQueue
import DatacenterNetworking.Lib.CountMin

namespace DatacenterNetworking
namespace Htsim
namespace AprxFairQueue

/-! ## Sketch -/

section Sketch

variable {q q' : AprxFairQueue}

/-- The cell of a flow in a row. -/
def cell (q : AprxFairQueue) (i flowid : Nat) : Nat := hashFlow i flowid % q.cfg.nBucket

/-- The sketch is a count-min sketch. -/
theorem estimate_eq (q : AprxFairQueue) (flowid : Nat) :
    q.estimate flowid =
      CountMin.estimate (List.range q.cfg.nHash) q.cell (2 ^ 64 - 1) q.sketch flowid := rfl

theorem updateSketch_eq (q : AprxFairQueue) (flowid bytes : Nat) :
    q.updateSketch flowid bytes =
      CountMin.raise (List.range q.cfg.nHash) q.cell q.sketch flowid bytes := by
  funext i j
  simp only [updateSketch, CountMin.raise, List.mem_range]
  rfl

theorem flowRound_lt (q : AprxFairQueue) (flowid : Nat) : q.flowRound flowid < 2 ^ 64 := by
  have hest : q.estimate flowid ≤ 2 ^ 64 - 1 := CountMin.estimate_le_top
  have hdiv : q.flowRound flowid ≤ q.estimate flowid := Nat.div_le_self _ _
  omega

theorem flowRound_congr (hcfg : q'.cfg = q.cfg) (hsketch : q'.sketch = q.sketch)
    (flowid : Nat) : q'.flowRound flowid = q.flowRound flowid := by
  simp only [flowRound, estimate]
  rw [hcfg, hsketch]

/-- A raised sketch lowers no estimate. -/
theorem estimate_mono (hcfg : q'.cfg = q.cfg) (h : ∀ i j, q.sketch i j ≤ q'.sketch i j)
    (flowid : Nat) : q.estimate flowid ≤ q'.estimate flowid := by
  have hcell : q'.cell = q.cell := by
    funext i flowid
    rw [cell, hcfg]
    rfl
  rw [estimate_eq, estimate_eq, hcell, hcfg]
  exact CountMin.estimate_mono h

/-- A raised sketch moves no flow back. -/
theorem flowRound_mono (hcfg : q'.cfg = q.cfg) (h : ∀ i j, q.sketch i j ≤ q'.sketch i j)
    (flowid : Nat) : q.flowRound flowid ≤ q'.flowRound flowid := by
  rw [flowRound, flowRound, hcfg]
  exact Nat.div_le_div_right (estimate_mono hcfg h flowid)

theorem sketch_le_store (q : AprxFairQueue) (pkt : Packet) (i j : Nat) :
    q.sketch i j ≤ (q.store pkt).sketch i j := by
  show q.sketch i j ≤ q.updateSketch pkt.flow (q.newBytes pkt) i j
  rw [updateSketch_eq]
  exact CountMin.le_raise i j

end Sketch

/-! ## Which FIFO -/

section OutQ

variable {q : AprxFairQueue} {r : Nat}

/-- The packet of round `r` does not make the 32-bit sum wrap. -/
def SumFits (q : AprxFairQueue) (r : Nat) : Prop := q.currQ + (r - q.nRounds) < 2 ^ 32

/-- Without a wrap the FIFO is that of the round. -/
theorem outQ_eq (hcurrQ : q.currQ = q.nRounds % q.cfg.nQueue)
    (hnear : q.nRounds < r → r - q.nRounds < q.cfg.nQueue) (hfits : SumFits q r) :
    q.outQ r = max q.nRounds r % q.cfg.nQueue := by
  have hlt : q.currQ < q.cfg.nQueue := by
    rw [hcurrQ]
    exact Nat.mod_lt _ q.cfg.nQueue_pos
  simp only [outQ]
  by_cases hle : r ≤ q.nRounds
  · rw [if_pos hle, max_eq_left hle, hcurrQ]
  · have hnear' := hnear (by omega)
    have hround : max q.nRounds r % q.cfg.nQueue =
        (q.currQ + (r - q.nRounds)) % q.cfg.nQueue := by
      rw [hcurrQ, Nat.mod_add_mod, max_eq_right (by omega), Nat.add_sub_cancel' (by omega)]
    rw [if_neg hle, Nat.mod_eq_of_lt hfits, hround]
    by_cases hwrap : q.cfg.nQueue ≤ q.currQ + (r - q.nRounds)
    · rw [if_pos hwrap, Nat.mod_eq_sub_mod hwrap, Nat.mod_eq_of_lt (by omega)]
    · rw [if_neg hwrap, Nat.mod_eq_of_lt (by omega)]

/-- With a wrap it is not: the sum loses `2^32`, not `nQueue`. -/
theorem outQ_ne (hcurrQ : q.currQ = q.nRounds % q.cfg.nQueue)
    (hnear : q.nRounds < r → r - q.nRounds < q.cfg.nQueue) (hwraps : ¬ SumFits q r) :
    q.outQ r ≠ max q.nRounds r % q.cfg.nQueue := by
  have hlt : q.currQ < q.cfg.nQueue := by
    rw [hcurrQ]
    exact Nat.mod_lt _ q.cfg.nQueue_pos
  have hn := q.cfg.nQueue_lt
  have hsum : 2 ^ 32 ≤ q.currQ + (r - q.nRounds) := not_lt.mp hwraps
  have hle : ¬ r ≤ q.nRounds := by omega
  have hnear' := hnear (by omega)
  have hround : max q.nRounds r % q.cfg.nQueue =
      q.currQ + (r - q.nRounds) - q.cfg.nQueue := by
    rw [max_eq_right (by omega), show r = q.nRounds + (r - q.nRounds) by omega,
      ← Nat.mod_add_mod, ← hcurrQ, Nat.add_sub_cancel_left, Nat.mod_eq_sub_mod (by omega),
      Nat.mod_eq_of_lt (by omega)]
  have hout : q.outQ r = q.currQ + (r - q.nRounds) - 2 ^ 32 := by
    simp only [outQ]
    rw [if_neg hle, Nat.mod_eq_sub_mod hsum, Nat.mod_eq_of_lt (by omega), if_neg (by omega)]
  omega

end OutQ

/-! ## The invariant -/

/-- The calendar that the queue is meant to be. -/
def State.abs (s : State) : Calendar Queued where
  slots := s.q.packets
  now := s.q.nRounds
  served := s.departed.map Prod.fst

/-- The invariant of the queue. -/
structure Wf (s : State) : Prop where
  ok : s.abs.Ok s.q.cfg.nQueue Queued.round Queued.arrival Queued.flow s.q.accepted
  currQ : s.q.currQ = s.q.nRounds % s.q.cfg.nQueue
  nRounds_lt : s.q.nRounds < 2 ^ 64
  round_lt : ∀ i, ∀ e ∈ s.q.packets i, e.round < 2 ^ 64
  /-- The next packet of a flow gets no earlier round than those stored. -/
  behind : ∀ i, ∀ e ∈ s.q.packets i, e.round ≤ max s.q.nRounds (s.q.flowRound e.flow)
  total : s.q.nPackets = ∑ i ∈ Finset.range s.q.cfg.nQueue, (s.q.packets i).length

/-- Between handler calls: the current FIFO has the packet in service, and one completion
    event is registered while packets are stored. -/
structure Serving (s : State) : Prop where
  wf : Wf s
  busy : 0 < s.q.nPackets → s.q.packets s.q.currQ ≠ []
  pending : s.q.pending = if s.q.nPackets = 0 then 0 else 1

theorem serving_init (bitrate maxsize : Nat) (cfg : AFQcfg) :
    Serving (init bitrate maxsize cfg) where
  wf :=
    { ok :=
        { placed := fun _ _ he => absurd he List.not_mem_nil
          fifo := fun _ => List.Pairwise.nil
          mono := fun _ _ _ _ ha => absurd ha List.not_mem_nil
          fresh := fun _ _ he => absurd he List.not_mem_nil
          fresh_served := fun _ hd => absurd hd List.not_mem_nil
          past := fun _ hd => absurd hd List.not_mem_nil
          older := fun _ hd => absurd hd List.not_mem_nil
          inOrder := List.Pairwise.nil }
      currQ := (Nat.zero_mod _).symm
      nRounds_lt := Nat.two_pow_pos 64
      round_lt := fun _ _ he => absurd he List.not_mem_nil
      behind := fun _ _ he => absurd he List.not_mem_nil
      total := by simp [init, new] }
  busy := fun hpos => absurd hpos (Nat.lt_irrefl 0)
  pending := rfl

section Invariant

variable {s : State}

theorem Wf.currQ_lt (h : Wf s) : s.q.currQ < s.q.cfg.nQueue := by
  rw [h.currQ]
  exact Nat.mod_lt _ s.q.cfg.nQueue_pos

/-- The index of a FIFO that holds a packet. -/
theorem Wf.index_lt (h : Wf s) {i : Nat} {e : Queued} (he : e ∈ s.q.packets i) :
    i < s.q.cfg.nQueue := by
  rw [(h.ok.placed i e he).1]
  exact Nat.mod_lt _ s.q.cfg.nQueue_pos

/-- With packets stored, some FIFO has one. -/
theorem Wf.exists_mem (h : Wf s) (hpos : 0 < s.q.nPackets) : ∃ i e, e ∈ s.q.packets i := by
  by_contra hnone
  have hzero : ∑ i ∈ Finset.range s.q.cfg.nQueue, (s.q.packets i).length = 0 := by
    refine Finset.sum_eq_zero fun i _ => ?_
    rw [List.length_eq_zero_iff]
    exact List.eq_nil_iff_forall_not_mem.mpr fun e he => hnone ⟨i, e, he⟩
  have htotal := h.total
  omega

/-! ## The loop of `beginService` -/

/-- One round of the loop. -/
theorem wf_nextRound (h : Wf s) (hempty : s.q.packets s.q.currQ = [])
    (hlt : s.q.nRounds + 1 < 2 ^ 64) : Wf { s with q := s.q.nextRound } := by
  have hcurrQ := h.currQ_lt
  have hn := s.q.cfg.nQueue_lt
  have hrounds : s.q.nextRound.nRounds = s.q.nRounds + 1 := Nat.mod_eq_of_lt hlt
  -- on the calendar it is one advance, which an empty slot allows
  have habs : ({ s with q := s.q.nextRound } : State).abs = s.abs.advance := by
    show (⟨s.q.packets, s.q.nextRound.nRounds, _⟩ : Calendar Queued) = _
    rw [hrounds]
    rfl
  refine
    { ok := ?_
      currQ := ?_
      nRounds_lt := ?_
      round_lt := h.round_lt
      behind := fun i e he => ?_
      total := h.total }
  · rw [habs]
    refine h.ok.advance ?_
    show s.q.packets (s.q.nRounds % s.q.cfg.nQueue) = []
    rw [← h.currQ]
    exact hempty
  · show s.q.nextRound.currQ = s.q.nextRound.nRounds % s.q.cfg.nQueue
    rw [hrounds, ← Nat.mod_add_mod, ← h.currQ]
    simp only [nextRound]
    rw [Nat.mod_eq_of_lt (show s.q.currQ + 1 < 2 ^ 32 by omega)]
    by_cases hlast : s.q.currQ + 1 = s.q.cfg.nQueue
    · rw [if_pos hlast, hlast, Nat.mod_self]
    · rw [if_neg hlast, Nat.mod_eq_of_lt (by omega)]
  · show s.q.nextRound.nRounds < 2 ^ 64
    rw [hrounds]
    exact hlt
  · show e.round ≤ max s.q.nextRound.nRounds (s.q.flowRound e.flow)
    rw [hrounds]
    exact (h.behind i e he).trans (max_le_max_right _ (Nat.le_succ _))

/-- What service leaves of a queue: at most the place in the circle is another. -/
def Turned (q q' : AprxFairQueue) : Prop :=
  ∃ currQ nRounds pending,
    q' = { q with currQ := currQ, nRounds := nRounds, pending := pending }

theorem Turned.cfg_eq {q q' : AprxFairQueue} (h : Turned q q') : q'.cfg = q.cfg := by
  obtain ⟨currQ, nRounds, pending, rfl⟩ := h
  rfl

/-- The loop ends, at the first round of a packet stored, with fuel up to that of any. -/
theorem skip_spec {fuel i : Nat} {e : Queued} (h : Wf s) (he : e ∈ s.q.packets i)
    (hfuel : e.round < s.q.nRounds + fuel) :
    ∃ currQ nRounds, skip fuel s.q = some { s.q with currQ := currQ, nRounds := nRounds } ∧
      Wf { s with q := { s.q with currQ := currQ, nRounds := nRounds } } ∧
      s.q.packets currQ ≠ [] ∧ s.q.nRounds ≤ nRounds := by
  -- each empty FIFO skipped brings the round of `e` one nearer
  induction fuel generalizing s with
  | zero =>
    have hlow := (h.ok.placed i e he).2.1
    exact absurd hfuel (not_lt.mpr hlow)
  | succ fuel ih =>
    by_cases hempty : s.q.packets s.q.currQ = []
    · -- the packet is of a later round
      have hlow : s.q.nRounds ≤ e.round := (h.ok.placed i e he).2.1
      have hne : e.round ≠ s.q.nRounds := by
        intro heq
        have hi := h.ok.placed.slot_eq he heq.le
        replace hi : i = s.q.nRounds % s.q.cfg.nQueue := hi
        rw [hi, ← h.currQ, hempty] at he
        exact List.not_mem_nil he
      have hlt : s.q.nRounds + 1 < 2 ^ 64 := by
        have hround := h.round_lt i e he
        omega
      have hrounds : s.q.nextRound.nRounds = s.q.nRounds + 1 := Nat.mod_eq_of_lt hlt
      obtain ⟨currQ, nRounds, hskip, hwf, hbusy, hle⟩ := ih (s := { s with q := s.q.nextRound })
        (wf_nextRound h hempty hlt) he (by
          show e.round < s.q.nextRound.nRounds + fuel
          rw [hrounds]
          omega)
      replace hle : s.q.nextRound.nRounds ≤ nRounds := hle
      refine ⟨currQ, nRounds, ?_, hwf, hbusy, by omega⟩
      rw [skip, if_pos hempty]
      exact hskip
    · exact ⟨s.q.currQ, s.q.nRounds, by rw [skip, if_neg hempty], h, hempty, le_rfl⟩

/-- `beginService` with no completion event registered. -/
theorem beginService_spec (h : Wf s) (hpending : s.q.pending = 0) :
    ∃ q', s.q.beginService = some q' ∧ Serving { s with q := q' } ∧ Turned s.q q' ∧
      s.q.nRounds ≤ q'.nRounds := by
  simp only [beginService]
  by_cases hpos : 0 < s.q.nPackets
  · obtain ⟨i, e, he⟩ := h.exists_mem hpos
    obtain ⟨currQ, nRounds, hskip, hwf, hbusy, hle⟩ :=
      skip_spec h he (h.ok.placed i e he).2.2
    rw [if_pos hpos, hskip]
    refine ⟨_, rfl, ⟨⟨hwf.ok, hwf.currQ, hwf.nRounds_lt, hwf.round_lt, hwf.behind, hwf.total⟩,
      fun _ => hbusy, ?_⟩, ⟨currQ, nRounds, _, rfl⟩, hle⟩
    show s.q.pending + 1 = _
    rw [hpending, if_neg (Nat.ne_of_gt hpos)]
  · rw [if_neg hpos]
    refine ⟨s.q, rfl, ⟨h, fun hpos' => absurd hpos' hpos, ?_⟩, ⟨_, _, _, rfl⟩, le_rfl⟩
    rw [hpending, if_pos (Nat.eq_zero_of_not_pos hpos)]

end Invariant

/-! ## Arrivals -/

/-- The entry of an arriving packet. -/
def entry (q : AprxFairQueue) (pkt : Packet) : Queued where
  pkt := pkt
  round := max q.nRounds (q.flowRound pkt.flow)
  arrival := q.accepted

section Arrival

variable {s : State} {pkt : Packet}

theorem entry_round_lt (q : AprxFairQueue) (pkt : Packet) (hlt : q.nRounds < 2 ^ 64) :
    (q.entry pkt).round < 2 ^ 64 := max_lt hlt (q.flowRound_lt pkt.flow)

theorem Accepts.near {q : AprxFairQueue} (h : q.Accepts pkt) :
    (q.entry pkt).round < q.nRounds + q.cfg.nQueue := by
  have hn := q.cfg.nQueue_pos
  have hnear := h.2
  show max q.nRounds (q.flowRound pkt.flow) < _
  omega

/-- Storing a packet puts it into the calendar, if the sum fits. -/
theorem abs_store (h : Wf s) (hacc : s.q.Accepts pkt)
    (hfits : SumFits s.q (s.q.flowRound pkt.flow)) :
    ({ s with q := s.q.store pkt } : State).abs =
      s.abs.insert s.q.cfg.nQueue Queued.round (s.q.entry pkt) := by
  have hout := outQ_eq h.currQ hacc.2 hfits
  show (⟨Function.update s.q.packets (s.q.outQ (s.q.flowRound pkt.flow))
    (s.q.entry pkt :: s.q.packets (s.q.outQ (s.q.flowRound pkt.flow))), _, _⟩ :
      Calendar Queued) = _
  rw [hout]
  rfl

theorem wf_store (h : Wf s) (hacc : s.q.Accepts pkt)
    (hfits : SumFits s.q (s.q.flowRound pkt.flow)) : Wf { s with q := s.q.store pkt } := by
  have habs := abs_store h hacc hfits
  have hmem : ∀ i, ∀ e ∈ (s.q.store pkt).packets i, e = s.q.entry pkt ∨ e ∈ s.q.packets i := by
    intro i e he
    have he' : e ∈ (s.abs.insert s.q.cfg.nQueue Queued.round (s.q.entry pkt)).slots i := by
      rw [← habs]
      exact he
    rcases Calendar.mem_insert he' with ⟨heq, -⟩ | he'
    · exact Or.inl heq
    · exact Or.inr he'
  -- the sketch only grows, so no flow falls behind the rounds it was assigned
  have hmono := fun flowid => @flowRound_mono s.q (s.q.store pkt) rfl
    (sketch_le_store s.q pkt) flowid
  refine
    { ok := ?_
      currQ := h.currQ
      nRounds_lt := h.nRounds_lt
      round_lt := fun i e he => ?_
      behind := fun i e he => ?_
      total := ?_ }
  · rw [habs]
    refine h.ok.insert (le_max_left _ _) hacc.near rfl fun i a ha hflow => ?_
    have hbehind := h.behind i a ha
    replace hflow : a.flow = pkt.flow := hflow
    rw [hflow] at hbehind
    exact hbehind
  · rcases hmem i e he with rfl | he
    · exact entry_round_lt s.q pkt h.nRounds_lt
    · exact h.round_lt i e he
  · rcases hmem i e he with rfl | he
    · exact max_le_max_left _ (hmono pkt.flow)
    · exact (h.behind i e he).trans (max_le_max_left _ (hmono e.flow))
  · -- one more in the FIFO it goes to
    have hlt : s.q.outQ (s.q.flowRound pkt.flow) < s.q.cfg.nQueue := by
      rw [outQ_eq h.currQ hacc.2 hfits]
      exact Nat.mod_lt _ s.q.cfg.nQueue_pos
    have hsum := StocFairQueue.sum_length_update hlt s.q.packets
      (s.q.entry pkt :: s.q.packets (s.q.outQ (s.q.flowRound pkt.flow)))
    rw [List.length_cons] at hsum
    have htotal := h.total
    show s.q.nPackets + 1 = ∑ i ∈ Finset.range s.q.cfg.nQueue, (Function.update s.q.packets
      (s.q.outQ (s.q.flowRound pkt.flow))
      (s.q.entry pkt :: s.q.packets (s.q.outQ (s.q.flowRound pkt.flow))) i).length
    omega

/-- An arrival is always handled, and keeps the invariant if its sum fits. -/
theorem arrive_spec (h : Serving s)
    (hfits : s.q.Accepts pkt → SumFits s.q (s.q.flowRound pkt.flow)) :
    ∃ q', s.q.receivePacket pkt = some q' ∧ Serving { s with q := q' } ∧
      ((¬ s.q.Accepts pkt ∧ q' = s.q) ∨
        (s.q.Accepts pkt ∧ Turned (s.q.store pkt) q' ∧ s.q.nRounds ≤ q'.nRounds)) := by
  simp only [receivePacket]
  by_cases hacc : s.q.Accepts pkt
  · rw [if_pos hacc]
    have hwf := wf_store h.wf hacc (hfits hacc)
    by_cases hempty : s.q.nPackets = 0
    · -- service begins with it
      have hpending : s.q.pending = 0 := by rw [h.pending, if_pos hempty]
      obtain ⟨q', hbegin, hserving, hturned⟩ := beginService_spec hwf hpending
      rw [if_pos hempty]
      exact ⟨q', hbegin, hserving, Or.inr ⟨hacc, hturned⟩⟩
    · rw [if_neg hempty]
      refine ⟨_, rfl, ⟨hwf, fun _ => ?_, ?_⟩, Or.inr ⟨hacc, ⟨_, _, _, rfl⟩, le_rfl⟩⟩
      · have hbusy := h.busy (Nat.pos_of_ne_zero hempty)
        show Function.update s.q.packets _ _ s.q.currQ ≠ []
        -- the current FIFO was not empty, and storing empties none
        by_cases hcurr : s.q.currQ = s.q.outQ (s.q.flowRound pkt.flow)
        · rw [hcurr, Function.update_self]
          exact List.cons_ne_nil _ _
        · rw [Function.update_of_ne hcurr]
          exact hbusy
      · show s.q.pending = if s.q.nPackets + 1 = 0 then 0 else 1
        rw [h.pending, if_neg hempty, if_neg (Nat.succ_ne_zero _)]
  · rw [if_neg hacc]
    exact ⟨s.q, rfl, h, Or.inl ⟨hacc, rfl⟩⟩

/-- The loop moves no packets. -/
theorem skip_packets {fuel : Nat} {q q' : AprxFairQueue} (hskip : skip fuel q = some q') :
    q'.packets = q.packets ∧ q'.cfg = q.cfg := by
  induction fuel generalizing q with
  | zero => cases hskip
  | succ fuel ih =>
    rw [skip] at hskip
    split_ifs at hskip
    · have hnext := ih hskip
      exact hnext
    · cases hskip
      exact ⟨rfl, rfl⟩

/-- Where an accepted packet is afterwards, whether the sum fits or not. -/
theorem mem_of_receivePacket {q' : AprxFairQueue} (hacc : s.q.Accepts pkt)
    (hrecv : s.q.receivePacket pkt = some q') :
    s.q.entry pkt ∈ q'.packets (s.q.outQ (s.q.flowRound pkt.flow)) ∧ q'.cfg = s.q.cfg := by
  have hstored : s.q.entry pkt ∈
      (s.q.store pkt).packets (s.q.outQ (s.q.flowRound pkt.flow)) := by
    show _ ∈ Function.update s.q.packets _ _ _
    rw [Function.update_self]
    exact List.mem_cons_self
  simp only [receivePacket] at hrecv
  rw [if_pos hacc] at hrecv
  split_ifs at hrecv
  · simp only [beginService] at hrecv
    split_ifs at hrecv
    · obtain ⟨q₁, hskip, rfl⟩ := Option.map_eq_some_iff.mp hrecv
      obtain ⟨hpackets, hcfg⟩ := skip_packets hskip
      refine ⟨?_, hcfg⟩
      show _ ∈ q₁.packets _
      rw [hpackets]
      exact hstored
    · cases hrecv
      exact ⟨hstored, rfl⟩
  · cases hrecv
    exact ⟨hstored, rfl⟩

end Arrival

/-! ## Completions -/

section Completion

variable {s : State}

/-- What is sent is the oldest packet of the current FIFO. -/
theorem completeService_eq_some {q q' : AprxFairQueue} {e : Queued} {pkt : Packet}
    (hcomplete : q.completeService = some (q', e, pkt)) :
    (q.packets q.currQ).getLast? = some e ∧
      AprxFairQueue.beginService (q.dequeue e.pkt) = some q' := by
  obtain ⟨⟨q₀, e₀, pkt₀⟩, hfinish, hbegin⟩ := Option.bind_eq_some_iff.mp hcomplete
  obtain ⟨q₁, hq₁, heq⟩ := Option.map_eq_some_iff.mp hbegin
  cases heq
  simp only [finishService] at hfinish
  split_ifs at hfinish
  split at hfinish
  · cases hfinish
  · rename_i hlast
    cases hfinish
    exact ⟨hlast, hq₁⟩

/-- The packet in service leaves the calendar, in its round. -/
theorem wf_dequeue (h : Serving s) {e : Queued} {pkt : Packet}
    (hlast : (s.q.packets s.q.currQ).getLast? = some e) :
    Wf { q := s.q.dequeue e.pkt, departed := s.departed ++ [(e, pkt)] } := by
  have hlast' : (s.abs.slots (s.abs.now % s.q.cfg.nQueue)).getLast? = some e := by
    show (s.q.packets (s.q.nRounds % s.q.cfg.nQueue)).getLast? = some e
    rw [← h.wf.currQ]
    exact hlast
  -- on the calendar it serves the oldest element of the current slot
  have habs : ({ q := s.q.dequeue e.pkt, departed := s.departed ++ [(e, pkt)] } : State).abs =
      s.abs.serve (s.abs.now % s.q.cfg.nQueue) e := by
    have hcurrQ : s.abs.now % s.q.cfg.nQueue = s.q.currQ := h.wf.currQ.symm
    rw [hcurrQ]
    show (⟨_, _, (s.departed ++ [(e, pkt)]).map Prod.fst⟩ : Calendar Queued) = _
    rw [List.map_append]
    rfl
  have hmem : ∀ i, ∀ x ∈ (s.q.dequeue e.pkt).packets i, x ∈ s.q.packets i := by
    intro i x hx
    refine Calendar.mem_of_mem_serve (c := s.abs) (k := s.q.currQ) (y := e) ?_
    exact hx
  refine
    { ok := ?_
      currQ := h.wf.currQ
      nRounds_lt := h.wf.nRounds_lt
      round_lt := fun i x hx => h.wf.round_lt i x (hmem i x hx)
      behind := fun i x hx => ?_
      total := ?_ }
  · rw [habs]
    exact h.wf.ok.serve hlast'
  · show x.round ≤ max s.q.nRounds ((s.q.dequeue e.pkt).flowRound x.flow)
    rw [@flowRound_congr s.q (s.q.dequeue e.pkt) rfl rfl]
    exact h.wf.behind i x (hmem i x hx)
  · -- one less in the current FIFO
    have hsum := StocFairQueue.sum_length_update h.wf.currQ_lt s.q.packets
      (s.q.packets s.q.currQ).dropLast
    have hlen : 0 < (s.q.packets s.q.currQ).length :=
      List.length_pos_of_mem (List.mem_of_getLast? hlast)
    rw [List.length_dropLast] at hsum
    have htotal := h.wf.total
    show s.q.nPackets - 1 = ∑ i ∈ Finset.range s.q.cfg.nQueue, (Function.update s.q.packets
      s.q.currQ (s.q.packets s.q.currQ).dropLast i).length
    omega

/-- With packets stored a completion is handled: a packet of the current round departs. -/
theorem complete_spec (h : Serving s) (hpos : 0 < s.q.nPackets) :
    ∃ q' e pkt, s.q.completeService = some (q', e, pkt) ∧ e.round = s.q.nRounds ∧
      Serving { q := q', departed := s.departed ++ [(e, pkt)] } ∧ Turned (s.q.dequeue e.pkt) q' ∧
      s.q.nRounds ≤ q'.nRounds := by
  have hbusy := h.busy hpos
  -- while packets are held the current FIFO has one to serve
  cases hlast : (s.q.packets s.q.currQ).getLast? with
  | none => exact absurd (List.getLast?_eq_none_iff.mp hlast) hbusy
  | some e =>
    let pkt := applyEcnMark (s.q.dequeue e.pkt).bitrate (s.q.dequeue e.pkt).queuesize
      ((s.q.dequeue e.pkt).roundMark e.pkt)
    have hpending : s.q.pending = 1 := by rw [h.pending, if_neg (Nat.ne_of_gt hpos)]
    have hpending' : (s.q.dequeue e.pkt).pending = 0 := by
      show s.q.pending - 1 = 0
      omega
    obtain ⟨q', hbegin, hserving, hturned⟩ :=
      beginService_spec (@wf_dequeue _ h _ pkt hlast) hpending'
    refine ⟨q', e, pkt, ?_, ?_, hserving, hturned⟩
    · simp only [completeService, finishService]
      rw [if_neg (by omega), hlast]
      show (AprxFairQueue.beginService (s.q.dequeue e.pkt)).map _ = _
      rw [hbegin]
      rfl
    · refine h.wf.ok.placed.round_eq ?_
      show e ∈ s.q.packets (s.q.nRounds % s.q.cfg.nQueue)
      rw [← h.wf.currQ]
      exact List.mem_of_getLast? hlast

/-- A completion event means that a packet is stored. -/
theorem nPackets_pos_of_completeService {r : AprxFairQueue × Queued × Packet}
    (hcomplete : s.q.completeService = some r) : 0 < s.q.nPackets := by
  by_contra hzero
  simp only [completeService, finishService] at hcomplete
  rw [if_pos (Or.inr (Nat.eq_zero_of_not_pos hzero))] at hcomplete
  cases hcomplete

end Completion

/-! ## Runs -/

/-- The queue is a calendar: `_currQ` goes with `_nRounds`; every packet stored is in the FIFO
    of its round, one of the next `nQueue`; and the packets that departed did so by round,
    those of one flow as they arrived. -/
structure InCalendar (s : State) : Prop where
  currQ : s.q.currQ = s.q.nRounds % s.q.cfg.nQueue
  slots : ∀ i, ∀ e ∈ s.q.packets i, i = e.round % s.q.cfg.nQueue ∧
    s.q.nRounds ≤ e.round ∧ e.round < s.q.nRounds + s.q.cfg.nQueue
  inOrder : (s.departed.map Prod.fst).Pairwise fun a b =>
    a.round ≤ b.round ∧ (a.flow = b.flow → a.arrival < b.arrival)

/-- The packet that a completion sends is of the current round. -/
def ServedInRound (s : State) : Act → Prop
  | .arrive _ => True
  | .complete => ∀ r, s.q.completeService = some r → r.2.1.round = s.q.nRounds

/-- The 32-bit sum for an accepted packet does not wrap. -/
def Fits (s : State) : Act → Prop
  | .arrive pkt => s.q.Accepts pkt → SumFits s.q (s.q.flowRound pkt.flow)
  | .complete => True

section Runs

variable {cfg : AFQcfg}

theorem inCalendar_of_serving {s : State} (h : Serving s ∧ s.q.cfg = cfg) : InCalendar s where
  currQ := h.1.wf.currQ
  slots := h.1.wf.ok.placed
  inOrder := h.1.wf.ok.inOrder

/-- A step whose sum fits. -/
theorem serving_step (s : State) (a : Act) (t : State) (h : Serving s ∧ s.q.cfg = cfg)
    (hstep : system.step s a = some t) (hfits : Fits s a) :
    (Serving t ∧ t.q.cfg = cfg) ∧ ServedInRound s a := by
  -- an arrival serves nothing, so only a completion says something of the order
  cases a with
  | arrive pkt =>
    obtain ⟨q', hrecv, hserving, hcases⟩ := arrive_spec h.1 hfits
    have hcfg : q'.cfg = s.q.cfg := by
      rcases hcases with ⟨-, rfl⟩ | ⟨-, hturned, -⟩
      · rfl
      · exact hturned.cfg_eq
    replace hstep : (s.q.receivePacket pkt).map _ = some t := hstep
    rw [hrecv] at hstep
    cases hstep
    exact ⟨⟨hserving, hcfg.trans h.2⟩, trivial⟩
  | complete =>
    obtain ⟨r, hr, rfl⟩ := Option.map_eq_some_iff.mp hstep
    obtain ⟨q', e, pkt, hcomplete, hround, hserving, hturned, -⟩ :=
      complete_spec h.1 (nPackets_pos_of_completeService hr)
    rw [hr] at hcomplete
    cases hcomplete
    refine ⟨⟨hserving, hturned.cfg_eq.trans h.2⟩, fun r' hr' => ?_⟩
    rw [hr] at hr'
    cases hr'
    exact hround

/-- A packet whose sum wraps is stored outside the calendar. -/
theorem fits_of_inCalendar (s : State) (a : Act) (t : State) (h : Serving s ∧ s.q.cfg = cfg)
    (hstep : system.step s a = some t) (ht : InCalendar t) : Fits s a := by
  cases a with
  | arrive pkt =>
    intro hacc
    by_contra hwraps
    obtain ⟨q', hrecv, rfl⟩ := Option.map_eq_some_iff.mp hstep
    obtain ⟨hmem, hcfg⟩ := mem_of_receivePacket hacc hrecv
    have hslot := (ht.slots _ _ hmem).1
    rw [hcfg] at hslot
    exact outQ_ne h.1.wf.currQ hacc.2 hwraps hslot
  | complete => trivial

/-- The runs in which the queue is a calendar throughout, serving every packet in its round:
    those in which no sum for an accepted packet wraps. -/
theorem calendar_iff_fits (bitrate maxsize : Nat) (cfg : AFQcfg) (acts : List Act) :
    system.Always InCalendar (init bitrate maxsize cfg) acts ∧
        system.Along ServedInRound (init bitrate maxsize cfg) acts ↔
      system.Along Fits (init bitrate maxsize cfg) acts :=
  Lts.always_and_along_iff (fun _ => inCalendar_of_serving) serving_step
    (fun s a t h hstep ht _ => fits_of_inCalendar s a t h hstep ht) acts
    ⟨serving_init bitrate maxsize cfg, rfl⟩

/-- Up to `2^31` FIFOs no sum wraps. -/
theorem fits_of_nQueue_le (hle : cfg.nQueue ≤ 2 ^ 31) (bitrate maxsize : Nat)
    (acts : List Act) : system.Along Fits (init bitrate maxsize cfg) acts := by
  have hfits : ∀ s a, Serving s ∧ s.q.cfg = cfg → Fits s a := by
    intro s a h
    cases a with
    | arrive pkt =>
      intro hacc
      have hcurrQ := h.1.wf.currQ_lt
      have hnear := hacc.2
      rw [h.2] at hcurrQ hnear
      show s.q.currQ + (s.q.flowRound pkt.flow - s.q.nRounds) < 2 ^ 32
      omega
    | complete => trivial
  exact Lts.along_of_along (I := fun s => Serving s ∧ s.q.cfg = cfg)
    (fun s a t h _ hstep => ⟨(serving_step s a t h hstep (hfits s a h)).1, hfits s a h⟩)
    ⟨serving_init bitrate maxsize cfg, rfl⟩ (Lts.along_of_forall_mem (P := fun _ => True)
      fun _ _ => trivial)

end Runs

/-- The most FIFOs that `nQueue` can count, a round a byte. -/
def manyQueues : AFQcfg where
  nHash := 1
  nBucket := 1
  nQueue := 2 ^ 32 - 1
  bytesPerRound := 1
  nHash_pos := le_rfl
  nBucket_pos := le_rfl
  nQueue_pos := by decide
  bytesPerRound_pos := le_rfl
  nQueue_lt := by decide

/-- Four packets of one flow, none larger than an `int` of bytes: of rounds 0, 2 and `2^31 + 1`,
    and, in round 2, of round `2^32`. -/
def fourPackets : List Act :=
  [.arrive ⟨7, 2, 0, false⟩, .arrive ⟨7, 2 ^ 31 - 1, 1, false⟩,
    .arrive ⟨7, 2 ^ 31 - 1, 2, false⟩, .complete, .arrive ⟨7, 1, 3, false⟩]

theorem fourPackets_isSome :
    (system.run (init 1000000000 (2 ^ 33) manyQueues) fourPackets).isSome = true := by
  decide +kernel

/-- The fourth is stored in FIFO 0.  That of its round is FIFO 1. -/
theorem fourPackets_breaks :
    ∃ t, system.run (init 1000000000 (2 ^ 33) manyQueues) fourPackets = some t ∧
      (∃ e ∈ t.q.packets 0, e.round = 2 ^ 32) ∧ ¬ InCalendar t := by
  have hmem : (⟨⟨7, 1, 3, false⟩, 2 ^ 32, 3⟩ : Queued) ∈ ((system.run
      (init 1000000000 (2 ^ 33) manyQueues) fourPackets).get fourPackets_isSome).q.packets 0 := by
    decide +kernel
  have hcfg : ((system.run (init 1000000000 (2 ^ 33) manyQueues) fourPackets).get
      fourPackets_isSome).q.cfg.nQueue = 2 ^ 32 - 1 := by
    decide +kernel
  refine ⟨_, (Option.some_get fourPackets_isSome).symm, ⟨_, hmem, rfl⟩, fun hcal => ?_⟩
  have hslot := (hcal.slots 0 _ hmem).1
  rw [hcfg] at hslot
  exact absurd hslot (by decide)

end AprxFairQueue
end Htsim
end DatacenterNetworking
