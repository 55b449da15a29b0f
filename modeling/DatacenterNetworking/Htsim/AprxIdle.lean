/-
  DatacenterNetworking.Htsim.AprxIdle

  Can a flow be locked out of an `AprxFairQueue` that is empty?  `_nRounds` advances
  only with service, and the sketch never goes down.

  Every cell of the sketch was last raised by a packet of some round, to less than
  `nQueue` rounds beyond the start of that round (`Reach`).  A packet of the calendar is
  served in its round, so once the queue is idle no cell is `nQueue` rounds ahead
  (`idleAccepts_of_fits`).

  A packet whose 32-bit sum for `outQ` wraps is served before its round.  The queue can
  then be idle with the flow too far ahead, for good (`idle_lockedOut`).
-/

import DatacenterNetworking.Htsim.AprxSketch

namespace DatacenterNetworking
namespace Htsim
namespace AprxFairQueue

/-! ## The bytes held -/

/-- The bytes in the FIFOs. -/
def heldBytes (q : AprxFairQueue) : Nat :=
  ∑ i ∈ Finset.range q.cfg.nQueue, ((q.packets i).map fun e => e.pkt.size).sum

section Held

variable {q : AprxFairQueue} {pkt : Packet}

theorem heldBytes_store (hout : q.outQ (q.flowRound pkt.flow) < q.cfg.nQueue) :
    (q.store pkt).heldBytes = q.heldBytes + pkt.size := by
  have hsum := sum_update hout (fun l : List Queued => (l.map fun e => e.pkt.size).sum) q.packets
    (q.entry pkt :: q.packets (q.outQ (q.flowRound pkt.flow)))
  rw [List.map_cons, List.sum_cons] at hsum
  replace hsum : (q.store pkt).heldBytes + _ = q.heldBytes + (pkt.size + _) := hsum
  omega

theorem heldBytes_dequeue {e : Queued} (hcurrQ : q.currQ < q.cfg.nQueue)
    (hlast : (q.packets q.currQ).getLast? = some e) :
    (q.dequeue e.pkt).heldBytes + e.pkt.size = q.heldBytes := by
  have hsum := sum_update hcurrQ (fun l : List Queued => (l.map fun e => e.pkt.size).sum) q.packets
    (q.packets q.currQ).dropLast
  have hsplit := List.dropLast_append_getLast? e hlast
  have hlen : ((q.packets q.currQ).map fun e => e.pkt.size).sum =
      ((q.packets q.currQ).dropLast.map fun e => e.pkt.size).sum + e.pkt.size := by
    rw [← hsplit, List.dropLast_concat, List.map_append, List.sum_append]
    rfl
  replace hsum : (q.dequeue e.pkt).heldBytes + _ = q.heldBytes + _ := hsum
  omega

end Held

/-! ## How far the sketch reaches -/

/-- A cell is less than `nQueue` rounds ahead of the current round, or of a packet that is yet to
    be served. -/
def Reach (q : AprxFairQueue) (v : Nat) : Prop :=
  v < (q.nRounds + q.cfg.nQueue) * q.cfg.bytesPerRound ∨
    ∃ i, ∃ e ∈ q.packets i, v < (e.round + q.cfg.nQueue) * q.cfg.bytesPerRound

/-- The invariant. -/
structure Bounded (maxsize : Nat) (cfg : AFQcfg) (s : State) : Prop where
  serving : Serving s
  cfg_eq : s.q.cfg = cfg
  maxsize_eq : s.q.maxsize = maxsize
  cells : ∀ i j, Reach s.q (s.q.sketch i j)
  bytes : s.q.queuesize = s.q.heldBytes % 2 ^ 64

instance (s : State) : (a : Act) → Decidable (Fits s a)
  | .arrive pkt => inferInstanceAs (Decidable (s.q.Accepts pkt →
      s.q.currQ + (s.q.flowRound pkt.flow - s.q.nRounds) < 2 ^ 32))
  | .complete => isTrue trivial

/-- A packet is smaller than the rounds the FIFOs stand for, less one, and than the queue. -/
def Small (maxsize : Nat) (cfg : AFQcfg) : Act → Prop
  | .arrive pkt => pkt.size ≤ (cfg.nQueue - 1) * cfg.bytesPerRound ∧ pkt.size ≤ maxsize
  | .complete => True

instance (maxsize : Nat) (cfg : AFQcfg) : (a : Act) → Decidable (Small maxsize cfg a)
  | .arrive _ => inferInstanceAs (Decidable (_ ∧ _))
  | .complete => isTrue trivial

section Bounded

variable {maxsize : Nat} {cfg : AFQcfg} {s : State} {pkt : Packet}

theorem bounded_init (bitrate maxsize : Nat) (cfg : AFQcfg) :
    Bounded maxsize cfg (init bitrate maxsize cfg) where
  serving := serving_init bitrate maxsize cfg
  cfg_eq := rfl
  maxsize_eq := rfl
  cells := fun _ _ => Or.inl (Nat.mul_pos (Nat.add_pos_right _ cfg.nQueue_pos)
    cfg.bytesPerRound_pos)
  bytes := by simp [init, new, heldBytes]

/-- The sum only wraps downwards. -/
theorem newBytes_le (q : AprxFairQueue) (pkt : Packet) :
    q.newBytes pkt ≤ q.startBytes pkt.flow + pkt.size := by
  have hmod := Nat.mod_le (q.nRounds * q.cfg.bytesPerRound) (2 ^ 64)
  simp only [newBytes, startBytes]
  refine (Nat.mod_le _ _).trans (Nat.add_le_add_right ?_ _)
  split_ifs
  · exact max_le_max_right _ hmod
  · exact le_max_right _ _

/-- A packet that is small enough raises its cells less than `nQueue` rounds beyond its own. -/
theorem newBytes_lt {q : AprxFairQueue}
    (hsmall : pkt.size ≤ (q.cfg.nQueue - 1) * q.cfg.bytesPerRound) :
    q.newBytes pkt < ((q.entry pkt).round + q.cfg.nQueue) * q.cfg.bytesPerRound := by
  have hle := newBytes_le q pkt
  have hstart : q.startBytes pkt.flow < ((q.entry pkt).round + 1) * q.cfg.bytesPerRound := by
    rw [← Nat.div_lt_iff_lt_mul q.cfg.bytesPerRound_pos, startBytes_div]
    exact Nat.lt_succ_self _
  have hn := q.cfg.nQueue_pos
  have hrounds : ((q.entry pkt).round + q.cfg.nQueue) * q.cfg.bytesPerRound =
      ((q.entry pkt).round + 1) * q.cfg.bytesPerRound +
        (q.cfg.nQueue - 1) * q.cfg.bytesPerRound := by
    rw [← Nat.add_mul]
    congr 1
    omega
  omega

/-- What is reached stays reached while rounds pass. -/
theorem Reach.turned {q q' : AprxFairQueue} {v : Nat} (h : Reach q v) (hturned : Turned q q')
    (hle : q.nRounds ≤ q'.nRounds) : Reach q' v := by
  obtain ⟨currQ, nRounds, pending, rfl⟩ := hturned
  refine h.imp_left fun hlt => hlt.trans_le (Nat.mul_le_mul_right _ (Nat.add_le_add_right hle _))

theorem reach_store {q : AprxFairQueue}
    (hsmall : pkt.size ≤ (q.cfg.nQueue - 1) * q.cfg.bytesPerRound)
    (h : ∀ i j, Reach q (q.sketch i j)) (i j : Nat) :
    Reach (q.store pkt) ((q.store pkt).sketch i j) := by
  have hmem : ∀ k, ∀ e ∈ q.packets k, e ∈ (q.store pkt).packets k := by
    intro k e he
    show e ∈ Function.update q.packets (q.outQ (q.flowRound pkt.flow)) (q.entry pkt :: _) k
    by_cases hk : k = q.outQ (q.flowRound pkt.flow)
    · rw [hk, Function.update_self]
      rw [hk] at he
      exact List.mem_cons_of_mem _ he
    · rw [Function.update_of_ne hk]
      exact he
  have hentry : q.entry pkt ∈ (q.store pkt).packets (q.outQ (q.flowRound pkt.flow)) := by
    show q.entry pkt ∈ Function.update q.packets _ (q.entry pkt :: _) _
    rw [Function.update_self]
    exact List.mem_cons_self
  have hcell : (q.store pkt).sketch i j = q.sketch i j ∨
      (q.store pkt).sketch i j = q.newBytes pkt := by
    show q.updateSketch pkt.flow (q.newBytes pkt) i j = q.sketch i j ∨
      q.updateSketch pkt.flow (q.newBytes pkt) i j = q.newBytes pkt
    rw [updateSketch_eq]
    exact CountMin.raise_le i j
  -- a cell that was raised is covered by the packet just stored
  rcases hcell with hsame | hraised
  · rw [hsame]
    exact (h i j).imp_right fun ⟨k, e, he, hlt⟩ => ⟨k, e, hmem k e he, hlt⟩
  · rw [hraised]
    exact Or.inr ⟨_, _, hentry, newBytes_lt hsmall⟩

/-- A packet served in its round leaves the reach as it was. -/
theorem reach_dequeue {q : AprxFairQueue} {e : Queued} {v : Nat} (hround : e.round = q.nRounds)
    (hlast : (q.packets q.currQ).getLast? = some e) (h : Reach q v) :
    Reach (q.dequeue e.pkt) v := by
  rcases h with hlt | ⟨k, x, hx, hlt⟩
  · exact Or.inl hlt
  · by_cases hk : k = q.currQ
    · rw [hk, ← List.dropLast_append_getLast? e hlast] at hx
      rcases List.mem_append.mp hx with hx | hx
      · refine Or.inr ⟨q.currQ, x, ?_, hlt⟩
        show x ∈ Function.update q.packets q.currQ _ q.currQ
        rw [Function.update_self]
        exact hx
      · rw [List.mem_singleton.mp hx, hround] at hlt
        exact Or.inl hlt
    · refine Or.inr ⟨k, x, ?_, hlt⟩
      show x ∈ Function.update q.packets q.currQ _ k
      rw [Function.update_of_ne hk]
      exact hx

theorem bounded_step (s : State) (a : Act) (t : State) (h : Bounded maxsize cfg s)
    (hfits : Fits s a) (hsmall : Small maxsize cfg a) (hstep : system.step s a = some t) :
    Bounded maxsize cfg t := by
  -- either act adds or takes the bytes of one packet, in the counter and in the FIFOs alike
  cases a with
  | arrive pkt =>
    obtain ⟨q', hrecv, hserving, hcases⟩ := arrive_spec h.serving hfits
    obtain ⟨q'', hrecv', rfl⟩ := Option.map_eq_some_iff.mp hstep
    rw [hrecv] at hrecv'
    cases hrecv'
    rcases hcases with ⟨-, rfl⟩ | ⟨hacc, hturned, hle⟩
    · exact h
    · have hreach := reach_store (by rw [h.cfg_eq]; exact hsmall.1) h.cells
      have hout := (outQ_ahead h.serving.wf.currQ_lt hacc.2).1
      have hheld := heldBytes_store hout
      obtain ⟨currQ, nRounds, pending, rfl⟩ := hturned
      refine ⟨hserving, h.cfg_eq, h.maxsize_eq,
        fun i j => (hreach i j).turned ⟨_, _, _, rfl⟩ hle, ?_⟩
      show (s.q.queuesize + pkt.size) % 2 ^ 64 = (s.q.store pkt).heldBytes % 2 ^ 64
      rw [hheld, h.bytes, Nat.mod_add_mod]
  | complete =>
    obtain ⟨r, hr, rfl⟩ := Option.map_eq_some_iff.mp hstep
    obtain ⟨q', e, sent, hcomplete, hround, hserving, hturned, hle⟩ :=
      complete_spec h.serving (nPackets_pos_of_completeService hr)
    rw [hr] at hcomplete
    cases hcomplete
    have hlast := (completeService_eq_some hr).1
    have hheld := heldBytes_dequeue h.serving.wf.currQ_lt hlast
    have hreach := fun i j => reach_dequeue hround hlast (h.cells i j)
    obtain ⟨currQ, nRounds, pending, rfl⟩ := hturned
    refine ⟨hserving, h.cfg_eq, h.maxsize_eq,
      fun i j => (hreach i j).turned ⟨_, _, _, rfl⟩ hle, ?_⟩
    show sub64 s.q.queuesize e.pkt.size = (s.q.dequeue e.pkt).heldBytes % 2 ^ 64
    rw [h.bytes, ← hheld]
    simp only [sub64]
    omega

/-! ## Idle -/

/-- An idle queue holds nothing. -/
theorem Bounded.packets_eq_nil (h : Bounded maxsize cfg s) (hidle : s.q.nPackets = 0) (i : Nat) :
    s.q.packets i = [] := by
  refine List.eq_nil_iff_forall_not_mem.mpr fun e he => ?_
  have hi := h.serving.wf.index_lt he
  have htotal := h.serving.wf.total
  rw [hidle] at htotal
  have hzero := Finset.sum_eq_zero_iff.mp htotal.symm i (Finset.mem_range.mpr hi)
  rw [List.length_eq_zero_iff.mp hzero] at he
  exact List.not_mem_nil he

/-- What arrives at an idle queue is stored. -/
theorem Bounded.accepts (h : Bounded maxsize cfg s) (hidle : s.q.nPackets = 0)
    (hsize : pkt.size ≤ maxsize) : s.q.Accepts pkt := by
  have hnil := h.packets_eq_nil hidle
  constructor
  · have hheld : s.q.heldBytes = 0 := by
      simp only [heldBytes]
      refine Finset.sum_eq_zero fun i _ => ?_
      rw [hnil i]
      rfl
    have hmod := Nat.mod_le pkt.size (2 ^ 64)
    rw [h.bytes, hheld, Nat.zero_mod, Nat.zero_add, h.maxsize_eq]
    omega
  · intro _
    -- the cell of its flow in the first row
    have hest : s.q.estimate pkt.flow ≤ s.q.sketch 0 (s.q.cell 0 pkt.flow) :=
      CountMin.estimate_le (List.mem_range.mpr s.q.cfg.nHash_pos)
    rcases h.cells 0 (s.q.cell 0 pkt.flow) with hlt | ⟨i, e, he, -⟩
    · have hround : s.q.flowRound pkt.flow < s.q.nRounds + s.q.cfg.nQueue :=
        (Nat.div_lt_iff_lt_mul s.q.cfg.bytesPerRound_pos).mpr (hest.trans_lt hlt)
      omega
    · rw [hnil i] at he
      exact absurd he List.not_mem_nil

end Bounded

/-- A packet that finds the queue idle is not dropped. -/
def IdleAccepts (s : State) : Act → Prop
  | .arrive pkt => s.q.nPackets = 0 → s.q.Accepts pkt
  | .complete => True

/-- For every configuration and every run of packets that are small enough for it, in which no
    32-bit sum for an accepted packet wraps. -/
theorem idleAccepts_of_fits (bitrate maxsize : Nat) (cfg : AFQcfg) (acts : List Act)
    (hsmall : ∀ a ∈ acts, Small maxsize cfg a)
    (hfits : system.Along Fits (init bitrate maxsize cfg) acts) :
    system.Along IdleAccepts (init bitrate maxsize cfg) acts := by
  refine Lts.along_of_along (I := Bounded maxsize cfg)
    (G := fun s a => Fits s a ∧ Small maxsize cfg a) (fun s a t h hg hstep => ?_)
    (bounded_init bitrate maxsize cfg) (hfits.and (Lts.along_of_forall_mem hsmall))
  refine ⟨bounded_step s a t h hg.1 hg.2 hstep, ?_⟩
  cases a with
  | arrive pkt => exact fun hidle => h.accepts hidle hg.2.2
  | complete => trivial

theorem idleAccepts_twoFlows :
    system.Along IdleAccepts (init 1000000000 15000 sharedCell) (twoFlows ++ [.complete]) :=
  idleAccepts_of_fits _ _ _ _ (by decide) (fits_of_nQueue_le (by decide) _ _ _)

/-- A little more than `2^31` FIFOs, a byte each. -/
def overHalf : AFQcfg where
  nHash := 1
  nBucket := 1
  nQueue := 2147483652
  bytesPerRound := 1
  nHash_pos := Nat.one_pos
  nBucket_pos := Nat.one_pos
  nQueue_pos := by decide
  bytesPerRound_pos := Nat.one_pos
  nQueue_lt := by decide

/-- The largest packet there can be, of an `int` of bytes. -/
def largest : Packet := ⟨7, 2147483647, 0, false⟩

/-- A packet of three bytes. -/
def three : Packet := ⟨7, 3, 1, false⟩

theorem largest_isSome :
    (system.run (init 1000000000 8589934592 overHalf) [.arrive largest, .complete]).isSome =
      true := by
  decide +kernel

/-- The largest has come and gone, in round 0. -/
def once : State :=
  (system.run (init 1000000000 8589934592 overHalf) [.arrive largest, .complete]).get
    largest_isSome

theorem bounded_once : Bounded 8589934592 overHalf once := by
  refine Lts.run_induction_along (I := Bounded 8589934592 overHalf)
    (G := fun s a => Fits s a ∧ Small 8589934592 overHalf a)
    (fun s a t h hg hstep => bounded_step s a t h hg.1 hg.2 hstep)
    (bounded_init 1000000000 8589934592 overHalf) ?_ (Option.some_get largest_isSome).symm
  decide +kernel

/-- The next packet is of round `2^31 - 1`, and with nothing else to serve the queue goes there. -/
theorem receivePacket_once :
    once.q.receivePacket three = some { once.q.store three with
      currQ := 2147483647, nRounds := 2147483647, pending := 1 } := by
  have hidle : once.q.nPackets = 0 := by decide +kernel
  have hout : once.q.outQ (once.q.flowRound three.flow) = 2147483647 := by decide +kernel
  have hentry : (once.q.entry three).round = 2147483647 := by decide +kernel
  have hfit : Fits once (.arrive three) := by decide +kernel
  have hnil := bounded_once.packets_eq_nil hidle
  obtain ⟨q', hrecv, hserving, ⟨hdrop, -⟩ | ⟨-, ⟨currQ, nRounds, pending, rfl⟩, -⟩⟩ :=
    arrive_spec bounded_once.serving hfit
  · exact absurd (bounded_once.accepts hidle (by decide)) hdrop
  have hpackets : ∀ i, i ≠ 2147483647 → (once.q.store three).packets i = [] := by
    intro i hi
    show Function.update once.q.packets (once.q.outQ (once.q.flowRound three.flow)) _ i = []
    rw [hout, Function.update_of_ne hi, hnil i]
  -- the current FIFO is the one that has the packet, and the round that of the packet
  have hbusy : (once.q.store three).packets currQ ≠ [] := hserving.busy (Nat.succ_pos _)
  have hcurrQ : currQ = 2147483647 := by
    by_contra hne
    exact hbusy (hpackets currQ hne)
  have hmem : once.q.entry three ∈ (once.q.store three).packets currQ := by
    show _ ∈ Function.update once.q.packets (once.q.outQ (once.q.flowRound three.flow)) _ currQ
    rw [hcurrQ, hout, Function.update_self]
    exact List.mem_cons_self
  have hslot : currQ = nRounds % overHalf.nQueue := by
    have hwf := hserving.wf.currQ
    exact hwf.trans (congrArg (nRounds % ·.nQueue) bounded_once.cfg_eq)
  have hnow : (once.q.entry three).round = nRounds := by
    refine hserving.wf.ok.placed.round_eq ?_
    show _ ∈ (once.q.store three).packets (nRounds % once.q.cfg.nQueue)
    rw [bounded_once.cfg_eq, ← hslot]
    exact hmem
  have hpending : pending = 1 := hserving.pending
  rw [hrecv, hcurrQ, ← hnow, hentry, hpending]

theorem step_arrive {s : State} {q' : AprxFairQueue} {pkt : Packet}
    (hrecv : s.q.receivePacket pkt = some q') :
    system.step s (.arrive pkt) = some { s with q := q' } := by
  show (s.q.receivePacket pkt).map _ = _
  rw [hrecv]
  rfl

/-- The one of three bytes comes and goes, and two of the largest follow. -/
def laps : List Act :=
  [.arrive largest, .complete] ++ ([.arrive three] ++
    [.complete, .arrive largest, .arrive largest, .complete, .complete])

/-- The last packet is of round `2^32 + 1`, and goes to the FIFO of round `2^31 + 5`.  When it has
    departed the queue is idle in that round, and the flow is `2^32 - 5` rounds ahead of it. -/
theorem idle_lockedOut :
    (∀ a ∈ laps ++ [.arrive largest], Small 8589934592 overHalf a) ∧
      ¬ system.Along IdleAccepts (init 1000000000 8589934592 overHalf)
        (laps ++ [.arrive largest]) := by
  refine ⟨by decide, fun hidle => ?_⟩
  have hrest : (system.run ⟨{ once.q.store three with
      currQ := 2147483647, nRounds := 2147483647, pending := 1 }, once.departed⟩
      [.complete, .arrive largest, .arrive largest, .complete, .complete]).map
        (fun t => (t.q.nPackets, decide (t.q.Accepts largest))) = some (0, false) := by
    decide +kernel
  obtain ⟨t, ht, heq⟩ := Option.map_eq_some_iff.mp hrest
  obtain ⟨hempty, hdrop⟩ := Prod.mk.inj heq
  have hfirst : system.run (init 1000000000 8589934592 overHalf) [.arrive largest, .complete] =
      some once := (Option.some_get largest_isSome).symm
  have hrun : system.run (init 1000000000 8589934592 overHalf) laps = some t :=
    Lts.run_trans hfirst (Lts.run_trans (Lts.run_one (step_arrive receivePacket_once)) ht)
  have hdropped : t.q.receivePacket largest = some t.q := by
    rw [receivePacket, if_neg (of_decide_eq_false hdrop)]
  have hlast := (hidle.of_append hrun) t (step_arrive hdropped)
  exact of_decide_eq_false hdrop (hlast.1 hempty)

end AprxFairQueue
end Htsim
end DatacenterNetworking
