/-
  DatacenterNetworking.Htsim.AprxSketch

  What the sketch of `AprxFairQueue` says of the bytes of a flow.  A packet takes the
  bytes of its flow from `startBytes` on, and the round it is given is the one in which
  they begin.  Flows that share cells only push each other forward, so

  * the packets of a flow take their bytes one after another, and those that begin in
    one round are fewer than `bytesPerRound` and one packet more (`capped_of_bytesFit`);
  * the estimate of a flow is never below its exact counter, nor below the round of a
    packet in service (`sketchSound_of_bytesFit`).

  Both need that no counter wraps (`BytesFit`): an estimate that reaches `2^64` starts
  again from 0, the sketch keeps the larger value, and the flow is not charged.  They
  do not need the packets to be in the FIFOs of their rounds: a packet whose 32-bit sum
  wraps is served too early, never too late (`InTime`).
-/

import DatacenterNetworking.Htsim.AprxCalendar

namespace DatacenterNetworking
namespace Htsim
namespace AprxFairQueue

/-! ## The bytes of a packet -/

section Bytes

variable {q : AprxFairQueue} {pkt : Packet}

/-- The bytes of a flow before its next packet: those it has in the sketch, or those of all
    rounds past if it is behind. -/
def startBytes (q : AprxFairQueue) (flowid : Nat) : Nat :=
  max (q.nRounds * q.cfg.bytesPerRound) (q.estimate flowid)

/-- A packet's round is that of its first byte. -/
theorem startBytes_div (q : AprxFairQueue) (pkt : Packet) :
    q.startBytes pkt.flow / q.cfg.bytesPerRound = (q.entry pkt).round := by
  have hmono : Monotone fun bytes => bytes / q.cfg.bytesPerRound :=
    fun _ _ h => Nat.div_le_div_right h
  have hmax := hmono.map_max (a := q.nRounds * q.cfg.bytesPerRound) (b := q.estimate pkt.flow)
  refine hmax.trans ?_
  rw [Nat.mul_div_cancel _ q.cfg.bytesPerRound_pos]
  rfl

/-- A flow that is ahead needs no moving up. -/
theorem newBytes_eq (hfit : q.startBytes pkt.flow + pkt.size < 2 ^ 64) :
    q.newBytes pkt = q.startBytes pkt.flow + pkt.size := by
  have hpast : q.nRounds * q.cfg.bytesPerRound ≤ q.startBytes pkt.flow := le_max_left _ _
  simp only [newBytes]
  split_ifs with hbehind
  · rw [Nat.mod_eq_of_lt (show q.nRounds * q.cfg.bytesPerRound < 2 ^ 64 by omega)]
    exact Nat.mod_eq_of_lt hfit
  · have hahead : q.nRounds * q.cfg.bytesPerRound ≤ q.estimate pkt.flow :=
      (Nat.mul_le_mul_right _ (Nat.lt_of_not_le hbehind).le).trans (Nat.div_mul_le_self _ _)
    have hstart : q.startBytes pkt.flow = q.estimate pkt.flow := max_eq_right hahead
    rw [hstart] at hfit ⊢
    exact Nat.mod_eq_of_lt hfit

theorem estimate_le_store (q : AprxFairQueue) (pkt : Packet) (flowid : Nat) :
    q.estimate flowid ≤ (q.store pkt).estimate flowid :=
  @estimate_mono q (q.store pkt) rfl (sketch_le_store q pkt) flowid

/-- The flow is charged for the packet. -/
theorem estimate_store (hfit : q.startBytes pkt.flow + pkt.size < 2 ^ 64) :
    (q.store pkt).estimate pkt.flow = q.startBytes pkt.flow + pkt.size := by
  have hbelow : q.estimate pkt.flow ≤ q.startBytes pkt.flow := le_max_right _ _
  show CountMin.estimate (List.range q.cfg.nHash) q.cell _
    (q.updateSketch pkt.flow (q.newBytes pkt)) pkt.flow = _
  rw [updateSketch_eq, newBytes_eq hfit, CountMin.estimate_raise (by omega), ← estimate_eq,
    max_eq_right (by omega)]

end Bytes

/-! ## No packet is late -/

/-- The rounds until FIFO `i` is the current one. -/
def ahead (q : AprxFairQueue) (i : Nat) : Nat :=
  if q.currQ ≤ i then i - q.currQ else q.cfg.nQueue - q.currQ + i

/-- Every FIFO is served by the round of any packet in it. -/
structure InTime (q : AprxFairQueue) : Prop where
  currQ_lt : q.currQ < q.cfg.nQueue
  slots : ∀ i, ∀ e ∈ q.packets i, i < q.cfg.nQueue ∧ q.nRounds + q.ahead i ≤ e.round

section InTime

variable {q q' : AprxFairQueue} {pkt : Packet}

theorem inTime_new (bitrate maxsize : Nat) (cfg : AFQcfg) : InTime (new bitrate maxsize cfg) where
  currQ_lt := cfg.nQueue_pos
  slots := fun _ _ he => absurd he List.not_mem_nil

/-- If the sum wraps, the FIFO is an earlier one. -/
theorem outQ_ahead {r : Nat} (hcurrQ : q.currQ < q.cfg.nQueue)
    (hnear : q.nRounds < r → r - q.nRounds < q.cfg.nQueue) :
    q.outQ r < q.cfg.nQueue ∧ q.nRounds + q.ahead (q.outQ r) ≤ max q.nRounds r := by
  have hn := q.cfg.nQueue_lt
  by_cases hle : r ≤ q.nRounds
  · have hout : q.outQ r = q.currQ := if_pos hle
    rw [hout, ahead, if_pos le_rfl]
    omega
  · have hnear' := hnear (by omega)
    simp only [outQ, ahead]
    rw [if_neg hle]
    split_ifs
    all_goals omega

theorem inTime_store (h : InTime q) (hacc : q.Accepts pkt) : InTime (q.store pkt) where
  currQ_lt := h.currQ_lt
  slots := by
    intro i e he
    replace he : e ∈ Function.update q.packets (q.outQ (q.flowRound pkt.flow))
      (q.entry pkt :: q.packets (q.outQ (q.flowRound pkt.flow))) i := he
    by_cases hi : i = q.outQ (q.flowRound pkt.flow)
    · rw [hi, Function.update_self] at he
      rw [hi]
      rcases List.mem_cons.mp he with rfl | he
      · exact outQ_ahead h.currQ_lt hacc.2
      · exact h.slots _ e he
    · rw [Function.update_of_ne hi] at he
      exact h.slots i e he

theorem inTime_dequeue (h : InTime q) (pkt : Packet) : InTime (q.dequeue pkt) where
  currQ_lt := h.currQ_lt
  slots := by
    intro i e he
    replace he : e ∈ Function.update q.packets q.currQ (q.packets q.currQ).dropLast i := he
    by_cases hi : i = q.currQ
    · rw [hi, Function.update_self] at he
      rw [hi]
      exact h.slots _ e (List.dropLast_subset _ he)
    · rw [Function.update_of_ne hi] at he
      exact h.slots i e he

/-- An empty FIFO is passed over: all others come a round closer. -/
theorem inTime_nextRound (h : InTime q) (hempty : q.packets q.currQ = []) :
    InTime q.nextRound := by
  have hlt := h.currQ_lt
  have hn := q.cfg.nQueue_lt
  refine ⟨?_, fun i e he => ?_⟩
  · show (if (q.currQ + 1) % 2 ^ 32 = q.cfg.nQueue then 0 else (q.currQ + 1) % 2 ^ 32) <
      q.cfg.nQueue
    split_ifs
    all_goals omega
  · replace he : e ∈ q.packets i := he
    have hne : i ≠ q.currQ := by
      intro hi
      rw [hi, hempty] at he
      exact List.not_mem_nil he
    obtain ⟨hi, hround⟩ := h.slots i e he
    refine ⟨hi, ?_⟩
    rw [ahead] at hround
    simp only [ahead, nextRound]
    split_ifs at hround ⊢
    all_goals omega

theorem skip_turned {fuel : Nat} (h : InTime q) (hskip : skip fuel q = some q') :
    InTime q' ∧ Turned q q' := by
  induction fuel generalizing q with
  | zero => cases hskip
  | succ fuel ih =>
    rw [skip] at hskip
    split_ifs at hskip with hempty
    · obtain ⟨h', currQ, nRounds, pending, rfl⟩ := ih (inTime_nextRound h hempty) hskip
      exact ⟨h', currQ, nRounds, pending, rfl⟩
    · cases hskip
      exact ⟨h, _, _, _, rfl⟩

theorem beginService_turned (h : InTime q) (hbegin : q.beginService = some q') :
    InTime q' ∧ Turned q q' := by
  simp only [beginService] at hbegin
  split_ifs at hbegin
  · obtain ⟨q₁, hskip, rfl⟩ := Option.map_eq_some_iff.mp hbegin
    obtain ⟨h₁, currQ, nRounds, pending, rfl⟩ := skip_turned h hskip
    exact ⟨⟨h₁.currQ_lt, h₁.slots⟩, currQ, nRounds, _, rfl⟩
  · cases hbegin
    exact ⟨h, _, _, _, rfl⟩

/-- What an arrival does. -/
theorem receivePacket_cases (h : InTime q) (hrecv : q.receivePacket pkt = some q') :
    (¬ q.Accepts pkt ∧ q' = q) ∨ (q.Accepts pkt ∧ InTime q' ∧ Turned (q.store pkt) q') := by
  simp only [receivePacket] at hrecv
  by_cases hacc : q.Accepts pkt
  · have hstored := inTime_store h hacc
    rw [if_pos hacc] at hrecv
    refine Or.inr ⟨hacc, ?_⟩
    split_ifs at hrecv
    · exact beginService_turned hstored hrecv
    · cases hrecv
      exact ⟨hstored, _, _, _, rfl⟩
  · rw [if_neg hacc] at hrecv
    cases hrecv
    exact Or.inl ⟨hacc, rfl⟩

/-- What a completion does. -/
theorem completeService_cases {e : Queued} (h : InTime q)
    (hcomplete : q.completeService = some (q', e, pkt)) :
    e ∈ q.packets q.currQ ∧ InTime q' ∧ Turned (q.dequeue e.pkt) q' := by
  obtain ⟨hlast, hbegin⟩ := completeService_eq_some hcomplete
  exact ⟨List.mem_of_getLast? hlast, beginService_turned (inTime_dequeue h _) hbegin⟩

end InTime

/-! ## Items laid one after another -/

section Laid

variable {α : Type*} {start size : α → Nat} {l : List α} {lo hi : Nat}

/-- Laid one after another between `lo` and `hi`, they fit between the two. -/
theorem add_sum_le (hlaid : l.Pairwise fun a b => start a + size a ≤ start b)
    (hlo : ∀ a ∈ l, lo ≤ start a) (hhi : ∀ a ∈ l, start a + size a ≤ hi) (hle : lo ≤ hi) :
    lo + (l.map size).sum ≤ hi := by
  induction l generalizing lo with
  | nil => exact hle
  | cons a l ih =>
    obtain ⟨hafter, hlaid'⟩ := List.pairwise_cons.mp hlaid
    have hfirst := hlo a List.mem_cons_self
    have hrest := ih hlaid' hafter (fun b hb => hhi b (List.mem_cons_of_mem _ hb))
      (hhi a List.mem_cons_self)
    rw [List.map_cons, List.sum_cons]
    omega

/-- If they begin in a window, only the last one can reach beyond it. -/
theorem sum_lt_of_window {width M : Nat} (hwidth : 0 < width)
    (hlaid : l.Pairwise fun a b => start a + size a ≤ start b)
    (hlo : ∀ a ∈ l, lo ≤ start a) (hhi : ∀ a ∈ l, start a < lo + width)
    (hsize : ∀ a ∈ l, size a ≤ M) : (l.map size).sum < width + M := by
  rcases List.eq_nil_or_concat l with rfl | ⟨l', x, rfl⟩
  · exact Nat.lt_of_lt_of_le hwidth (Nat.le_add_right _ _)
  · rw [List.concat_eq_append] at *
    obtain ⟨hlaid', -, hbefore⟩ := List.pairwise_append.mp hlaid
    have hx : x ∈ l' ++ [x] := List.mem_append_right _ List.mem_cons_self
    have hsum := add_sum_le hlaid' (fun a ha => hlo a (List.mem_append_left _ ha))
      (fun a ha => hbefore a ha x List.mem_cons_self) (hlo x hx)
    have hlast := hhi x hx
    have hM := hsize x hx
    rw [List.map_append, List.sum_append, List.map_singleton, List.sum_singleton]
    omega

end Laid

/-! ## The queue with its history -/

/-- The packets stored so far, in order, each with the first of its bytes; and the exact
    counters that the source has in a comment, `_exactBytes`. -/
structure Traced where
  state : State
  stored : List (Nat × Queued)
  exactBytes : Nat → Nat

namespace Traced

/-- As constructed. -/
def init (bitrate maxsize : Nat) (cfg : AFQcfg) : Traced where
  state := AprxFairQueue.init bitrate maxsize cfg
  stored := []
  exactBytes := fun _ => 0

/-- A packet is stored. -/
def note (h : Traced) (pkt : Packet) : Traced :=
  { h with
    stored := h.stored ++ [(h.state.q.startBytes pkt.flow, h.state.q.entry pkt)]
    exactBytes := Function.update h.exactBytes pkt.flow
      (max (h.exactBytes pkt.flow) (h.state.q.nRounds * h.state.q.cfg.bytesPerRound) + pkt.size) }

/-- The history after a step. -/
def after (h : Traced) : Act → Traced
  | .arrive pkt => if h.state.q.Accepts pkt then h.note pkt else h
  | .complete => h

/-- The queue, taking its history along. -/
def system : Lts Traced Act where
  step h a := (AprxFairQueue.system.step h.state a).map fun s => { h.after a with state := s }

/-- The history does not get in the way of a run. -/
theorem run_state (h : Traced) (acts : List Act) :
    (system.run h acts).map state = AprxFairQueue.system.run h.state acts := by
  induction acts generalizing h with
  | nil => rfl
  | cons a acts ih =>
    rw [Lts.run_cons, Lts.run_cons]
    show (((AprxFairQueue.system.step h.state a).map _).bind _).map _ = _
    cases AprxFairQueue.system.step h.state a with
    | none => rfl
    | some s => exact ih _

/-- The bytes of flow `f` that were stored with round `r`. -/
def roundBytes (h : Traced) (f r : Nat) : Nat :=
  ((h.stored.filter fun x => x.2.flow = f ∧ x.2.round = r).map fun x => x.2.pkt.size).sum

end Traced

/-- An accepted packet ends within 64 bits. -/
def BytesFit (h : Traced) : Act → Prop
  | .arrive pkt => h.state.q.Accepts pkt → h.state.q.startBytes pkt.flow + pkt.size < 2 ^ 64
  | .complete => True

instance (h : Traced) : (a : Act) → Decidable (BytesFit h a)
  | .arrive pkt => inferInstanceAs (Decidable (h.state.q.Accepts pkt → _))
  | .complete => isTrue trivial

/-- The invariant. -/
structure Ledger (cfg : AFQcfg) (h : Traced) : Prop where
  cfg_eq : h.state.q.cfg = cfg
  inTime : InTime h.state.q
  laid : h.stored.Pairwise fun a b => a.2.flow = b.2.flow → a.1 + a.2.pkt.size ≤ b.1
  round : ∀ x ∈ h.stored, x.1 / cfg.bytesPerRound = x.2.round
  charged : ∀ x ∈ h.stored, x.1 + x.2.pkt.size ≤ h.state.q.estimate x.2.flow
  exact : ∀ f, h.exactBytes f ≤ h.state.q.estimate f
  held : ∀ i, ∀ e ∈ h.state.q.packets i, ∃ b, (b, e) ∈ h.stored

section Ledger

variable {cfg : AFQcfg} {h h' : Traced} {pkt : Packet}

theorem ledger_init (bitrate maxsize : Nat) (cfg : AFQcfg) :
    Ledger cfg (Traced.init bitrate maxsize cfg) where
  cfg_eq := rfl
  inTime := inTime_new bitrate maxsize cfg
  laid := List.Pairwise.nil
  round := fun _ hx => absurd hx List.not_mem_nil
  charged := fun _ hx => absurd hx List.not_mem_nil
  exact := fun _ => Nat.zero_le _
  held := fun _ _ he => absurd he List.not_mem_nil

/-- A packet is charged where the flow's last one ended, or later. -/
theorem ledger_store {s : State} (hl : Ledger cfg h)
    (hfit : h.state.q.startBytes pkt.flow + pkt.size < 2 ^ 64) (hin : InTime s.q)
    (hturned : Turned (h.state.q.store pkt) s.q) :
    Ledger cfg { h.note pkt with state := s } := by
  obtain ⟨q', departed⟩ := s
  obtain ⟨currQ, nRounds, pending, rfl⟩ := hturned
  -- no estimate falls, and that of the packet's flow rises to its new bytes
  have hgrows := fun f => estimate_le_store h.state.q pkt f
  have hself := estimate_store hfit
  have hbelow : h.state.q.estimate pkt.flow ≤ h.state.q.startBytes pkt.flow := le_max_right _ _
  refine
    { cfg_eq := hl.cfg_eq
      inTime := hin
      laid := ?_
      round := fun x hx => ?_
      charged := fun x hx => ?_
      exact := fun f => ?_
      held := fun i e he => ?_ }
  · refine List.pairwise_append.mpr ⟨hl.laid, List.pairwise_singleton _ _, fun a ha b hb => ?_⟩
    rw [List.mem_singleton.mp hb]
    intro hflow
    have hcharged := hl.charged a ha
    rw [hflow] at hcharged
    exact hcharged.trans hbelow
  · rcases List.mem_append.mp hx with hx | hx
    · exact hl.round x hx
    · rw [List.mem_singleton.mp hx, ← hl.cfg_eq]
      exact startBytes_div h.state.q pkt
  · rcases List.mem_append.mp hx with hx | hx
    · exact (hl.charged x hx).trans (hgrows _)
    · rw [List.mem_singleton.mp hx]
      exact hself.ge
  · show Function.update h.exactBytes pkt.flow _ f ≤ (h.state.q.store pkt).estimate f
    by_cases hf : f = pkt.flow
    · rw [hf, Function.update_self, hself]
      have hexact := (hl.exact pkt.flow).trans hbelow
      have hpast : h.state.q.nRounds * h.state.q.cfg.bytesPerRound ≤
          h.state.q.startBytes pkt.flow := le_max_left _ _
      exact Nat.add_le_add_right (max_le hexact hpast) _
    · rw [Function.update_of_ne hf]
      exact (hl.exact f).trans (hgrows f)
  · replace he : e ∈ Function.update h.state.q.packets
      (h.state.q.outQ (h.state.q.flowRound pkt.flow)) (h.state.q.entry pkt ::
        h.state.q.packets (h.state.q.outQ (h.state.q.flowRound pkt.flow))) i := he
    have hcases : e = h.state.q.entry pkt ∨ ∃ k, e ∈ h.state.q.packets k := by
      by_cases hi : i = h.state.q.outQ (h.state.q.flowRound pkt.flow)
      · rw [hi, Function.update_self] at he
        exact (List.mem_cons.mp he).imp_right fun he => ⟨_, he⟩
      · rw [Function.update_of_ne hi] at he
        exact Or.inr ⟨i, he⟩
    rcases hcases with rfl | ⟨k, he⟩
    · exact ⟨_, List.mem_append_right _ List.mem_cons_self⟩
    · obtain ⟨b, hb⟩ := hl.held k e he
      exact ⟨b, List.mem_append_left _ hb⟩

/-- A departure changes neither sketch nor history. -/
theorem ledger_dequeue {s : State} (hl : Ledger cfg h) (hin : InTime s.q)
    (hturned : Turned (h.state.q.dequeue pkt) s.q) : Ledger cfg { h with state := s } := by
  obtain ⟨q', departed⟩ := s
  obtain ⟨currQ, nRounds, pending, rfl⟩ := hturned
  refine
    { cfg_eq := hl.cfg_eq
      inTime := hin
      laid := hl.laid
      round := hl.round
      charged := hl.charged
      exact := hl.exact
      held := fun i e he => ?_ }
  replace he : e ∈ Function.update h.state.q.packets h.state.q.currQ
    (h.state.q.packets h.state.q.currQ).dropLast i := he
  by_cases hi : i = h.state.q.currQ
  · rw [hi, Function.update_self] at he
    exact hl.held _ e (List.dropLast_subset _ he)
  · rw [Function.update_of_ne hi] at he
    exact hl.held i e he

theorem ledger_step (h : Traced) (a : Act) (h' : Traced) (hl : Ledger cfg h)
    (hfit : BytesFit h a) (hstep : Traced.system.step h a = some h') : Ledger cfg h' := by
  obtain ⟨s, hs, rfl⟩ := Option.map_eq_some_iff.mp hstep
  cases a with
  | arrive pkt =>
    obtain ⟨q', hrecv, rfl⟩ := Option.map_eq_some_iff.mp hs
    rcases receivePacket_cases hl.inTime hrecv with ⟨hacc, rfl⟩ | ⟨hacc, hin, hturned⟩
    · simp only [Traced.after]
      rw [if_neg hacc]
      exact hl
    · simp only [Traced.after]
      rw [if_pos hacc]
      exact ledger_store hl (hfit hacc) hin hturned
  | complete =>
    obtain ⟨⟨q', e, sent⟩, hcomplete, rfl⟩ := Option.map_eq_some_iff.mp hs
    obtain ⟨-, hin, hturned⟩ := completeService_cases hl.inTime hcomplete
    exact ledger_dequeue hl hin hturned

end Ledger

/-! ## The bytes of a round -/

/-- Whatever the largest packet of a flow is, the packets of the flow in one round are fewer
    bytes than a round and that packet. -/
def Capped (cfg : AFQcfg) (h : Traced) : Prop :=
  ∀ f r M, (∀ x ∈ h.stored, x.2.flow = f → x.2.pkt.size ≤ M) →
    h.roundBytes f r < cfg.bytesPerRound + M

section Round

variable {cfg : AFQcfg}

/-- The packets of a round begin in a window of `bytesPerRound` bytes. -/
theorem capped_of_ledger {h : Traced} (hl : Ledger cfg h) : Capped cfg h := by
  intro f r M hsize
  have hmem : ∀ x ∈ h.stored.filter fun x => x.2.flow = f ∧ x.2.round = r,
      x ∈ h.stored ∧ x.2.flow = f ∧ x.1 / cfg.bytesPerRound = r := by
    intro x hx
    obtain ⟨hstored, hdec⟩ := List.mem_filter.mp hx
    obtain ⟨hflow, hround⟩ := of_decide_eq_true hdec
    exact ⟨hstored, hflow, (hl.round x hstored).trans hround⟩
  refine @sum_lt_of_window (Nat × Queued) Prod.fst (fun x => x.2.pkt.size) _
    (r * cfg.bytesPerRound) _ M cfg.bytesPerRound_pos ?_ (fun x hx => ?_) (fun x hx => ?_)
    (fun x hx => ?_)
  · have hlaid := hl.laid.filter fun x => x.2.flow = f ∧ x.2.round = r
    refine hlaid.imp_of_mem fun ha hb hab => hab ?_
    exact (hmem _ ha).2.1.trans (hmem _ hb).2.1.symm
  · rw [← (hmem x hx).2.2]
    exact Nat.div_mul_le_self _ _
  · rw [← (hmem x hx).2.2]
    exact Nat.lt_div_mul_add cfg.bytesPerRound_pos
  · exact hsize x (hmem x hx).1 (hmem x hx).2.1

/-- For every configuration and every run in which no accepted packet brings the bytes of its
    flow to `2^64`. -/
theorem capped_of_bytesFit (bitrate maxsize : Nat) (cfg : AFQcfg) (acts : List Act)
    (hfit : Traced.system.Along BytesFit (Traced.init bitrate maxsize cfg) acts) :
    Traced.system.Always (Capped cfg) (Traced.init bitrate maxsize cfg) acts :=
  Lts.always_of_along (I := Ledger cfg) (fun h a h' hl hf hstep => ledger_step h a h' hl hf hstep)
    (fun _ hl => capped_of_ledger hl) (ledger_init bitrate maxsize cfg) hfit

end Round

/-- Two flows that share their cell in the one row, and two rounds of 1500 bytes. -/
def sharedCell : AFQcfg where
  nHash := 1
  nBucket := 1
  nQueue := 2
  bytesPerRound := 1500
  nHash_pos := Nat.one_pos
  nBucket_pos := Nat.one_pos
  nQueue_pos := by decide
  bytesPerRound_pos := by decide
  nQueue_lt := by decide

/-- A packet of flow 1 moves flow 2 to the next round. -/
def twoFlows : List Act :=
  [.arrive ⟨1, 1500, 0, false⟩, .arrive ⟨2, 1000, 1, false⟩, .complete,
    .arrive ⟨2, 1000, 2, false⟩]

theorem capped_twoFlows :
    Traced.system.Always (Capped sharedCell) (Traced.init 1000000000 15000 sharedCell) twoFlows :=
  capped_of_bytesFit _ _ _ _ (by decide +kernel)

/-- As many rounds as there can be, each as long as it can be. -/
def longRounds : AFQcfg where
  nHash := 1
  nBucket := 2
  nQueue := 4294967295
  bytesPerRound := 4294967295
  nHash_pos := Nat.one_pos
  nBucket_pos := by decide
  nQueue_pos := by decide
  bytesPerRound_pos := by decide
  nQueue_lt := by decide

/-- Flow 0 sends half of `2^64` bytes twice.  A packet of flow 1 keeps the round from ending. -/
def halves : List Act :=
  [.arrive ⟨0, 9223372036854775808, 0, false⟩, .arrive ⟨1, 1, 1, false⟩, .complete,
    .arrive ⟨0, 9223372036854775808, 2, false⟩]

/-- With the second half the bytes of flow 0 are 0 again, and its next packet is of the same
    round. -/
theorem capped_wraps :
    ∃ h, Traced.system.run (Traced.init 1000000000 18446744073709551615 longRounds)
        (halves ++ [.arrive ⟨0, 4294967295, 3, false⟩]) = some h ∧ ¬ Capped longRounds h := by
  have hrun : (Traced.system.run (Traced.init 1000000000 18446744073709551615 longRounds)
      (halves ++ [.arrive ⟨0, 4294967295, 3, false⟩])).map
      (fun h => (h.roundBytes 0 2147483648,
        decide (∀ x ∈ h.stored, x.2.flow = 0 → x.2.pkt.size ≤ 9223372036854775808))) =
        some (9223372041149743103, true) := by
    decide +kernel
  obtain ⟨h, hh, heq⟩ := Option.map_eq_some_iff.mp hrun
  obtain ⟨hbytes, hsizes⟩ := Prod.mk.inj heq
  refine ⟨h, hh, fun hcap => ?_⟩
  have hlt := hcap 0 2147483648 9223372036854775808 (of_decide_eq_true hsizes)
  rw [hbytes] at hlt
  exact absurd hlt (by decide)

/-! ## The estimate of a flow -/

/-- No flow is estimated below its exact counter. -/
def SketchSound (h : Traced) : Prop := ∀ f, h.exactBytes f ≤ h.state.q.estimate f

/-- The flow of a packet in service is not behind, so that the difference which decides on its
    mark is what it seems. -/
def NoUnderflow (h : Traced) : Act → Prop
  | .arrive _ => True
  | .complete => ∀ q' e sent, h.state.q.completeService = some (q', e, sent) →
      h.state.q.nRounds ≤ h.state.q.flowRound e.flow ∧
        sub64 (h.state.q.flowRound e.flow) h.state.q.nRounds =
          h.state.q.flowRound e.flow - h.state.q.nRounds

section Sound

variable {cfg : AFQcfg} {h : Traced}

theorem sub64_eq {a b : Nat} (hle : b ≤ a) (hlt : a < 2 ^ 64) : sub64 a b = a - b := by
  simp only [sub64]
  omega

/-- A stored packet has moved its flow to its round. -/
theorem Ledger.round_le (hl : Ledger cfg h) {i : Nat} {e : Queued}
    (he : e ∈ h.state.q.packets i) : e.round ≤ h.state.q.flowRound e.flow := by
  obtain ⟨b, hb⟩ := hl.held i e he
  have hcharged := hl.charged _ hb
  have hround : b / cfg.bytesPerRound = e.round := hl.round _ hb
  rw [flowRound, ← hround, hl.cfg_eq]
  exact Nat.div_le_div_right ((Nat.le_add_right _ _).trans hcharged)

theorem noUnderflow_of_ledger (hl : Ledger cfg h) (a : Act) : NoUnderflow h a := by
  cases a with
  | arrive pkt => trivial
  | complete =>
    intro q' e sent hcomplete
    obtain ⟨he, -, -⟩ := completeService_cases hl.inTime hcomplete
    have hslot := (hl.inTime.slots _ e he).2
    have hle : h.state.q.nRounds ≤ h.state.q.flowRound e.flow :=
      ((Nat.le_add_right _ _).trans hslot).trans (hl.round_le he)
    exact ⟨hle, sub64_eq hle (flowRound_lt _ _)⟩

/-- For every configuration and every run in which no accepted packet brings the bytes of its
    flow to `2^64`. -/
theorem sketchSound_of_bytesFit (bitrate maxsize : Nat) (cfg : AFQcfg) (acts : List Act)
    (hfit : Traced.system.Along BytesFit (Traced.init bitrate maxsize cfg) acts) :
    Traced.system.Always SketchSound (Traced.init bitrate maxsize cfg) acts ∧
      Traced.system.Along NoUnderflow (Traced.init bitrate maxsize cfg) acts :=
  ⟨Lts.always_of_along (I := Ledger cfg)
      (fun h a h' hl hf hstep => ledger_step h a h' hl hf hstep) (fun _ hl => hl.exact)
      (ledger_init bitrate maxsize cfg) hfit,
    Lts.along_of_along (I := Ledger cfg)
      (fun h a h' hl hf hstep => ⟨ledger_step h a h' hl hf hstep, noUnderflow_of_ledger hl a⟩)
      (ledger_init bitrate maxsize cfg) hfit⟩

theorem sketchSound_twoFlows :
    Traced.system.Always SketchSound (Traced.init 1000000000 15000 sharedCell) twoFlows ∧
      Traced.system.Along NoUnderflow (Traced.init 1000000000 15000 sharedCell) twoFlows :=
  sketchSound_of_bytesFit _ _ _ _ (by decide +kernel)

/-- The second half counts for the exact counter, and not for the sketch. -/
theorem sketchSound_wraps :
    ∃ h, Traced.system.run (Traced.init 1000000000 18446744073709551615 longRounds) halves =
      some h ∧ ¬ SketchSound h := by
  have hrun : (Traced.system.run (Traced.init 1000000000 18446744073709551615 longRounds)
      halves).map (fun h => (h.exactBytes 0, h.state.q.estimate 0)) =
        some (18446744073709551616, 9223372036854775808) := by
    decide +kernel
  obtain ⟨h, hh, heq⟩ := Option.map_eq_some_iff.mp hrun
  obtain ⟨hexact, hestimate⟩ := Prod.mk.inj heq
  refine ⟨h, hh, fun hsound => ?_⟩
  have hle := hsound 0
  rw [hexact, hestimate] at hle
  exact absurd hle (by decide)

end Sound

end AprxFairQueue
end Htsim
end DatacenterNetworking
