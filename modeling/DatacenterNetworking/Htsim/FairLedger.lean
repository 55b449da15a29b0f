/-
  DatacenterNetworking.Htsim.FairLedger

  What `FairQueue` knows of the packets it holds: `_queuesize`, `_nPackets`, and the
  tags.  Arrival, overflow and completion each update the three containers with a rule
  of their own.

  `Ledger` is the invariant while no sum wraps (`Fits`), for packets of any size.  Packets
  of size 0 may overtake others of their flow, so `spaced` and `le_flowRound` speak of the
  others only; with no such packets the flows are served in the order of arrival.

  * `books_balance`  — what the queue knows of the packets it holds is so;
  * `drop_no_trace`  — an arrival that is dropped at once leaves nothing that any
    later arrival or completion could tell.

  `books_wrapped` and `dropped_seen` are runs in which a tag wraps.
-/

import DatacenterNetworking.Htsim.WorkConservation

namespace DatacenterNetworking
namespace Htsim
namespace FairQueue

/-- Bytes of the packet in service: without a completion event `_currentPkt` is what the
    constructor left. -/
def servedBytes (q : FairQueue) : Nat :=
  if q.pending = 0 then 0 else (q.currentPkt.map Packet.size).getD 0

/-- Bytes of the packets waiting and of the one in service. -/
def heldBytes (q : FairQueue) : Nat := (q.packets.map fun e => e.2.size).sum + q.servedBytes

/-- Between packets of one flow that have a size, the later tag is larger by the size of the
    later packet at least. -/
def Spaced (a b : Nat × Packet) : Prop :=
  a.2.flow = b.2.flow → 1 ≤ a.2.size → 1 ≤ b.2.size → a.1 + b.2.size ≤ b.1

/-- The invariant. -/
structure Ledger (q : FairQueue) : Prop where
  bytes : q.queuesize = q.heldBytes
  sorted : q.packets.Pairwise fun a b => comparedBy a ≤ comparedBy b
  ge_round : ∀ e ∈ q.packets, q.roundNumber ≤ e.1
  nPackets : ∀ f, q.nPackets f = if q.count f = 0 then none else some (q.count f)
  flowRound : ∀ f, q.flowRound f = none ↔ q.count f = 0
  spaced : q.packets.Pairwise Spaced
  le_flowRound : ∀ e ∈ q.packets, 1 ≤ e.2.size → ∀ r, q.flowRound e.2.flow = some r → e.1 ≤ r
  service : q.pending = 0 ∨ (q.pending = 1 ∧ q.currentPkt.isSome = true)
  words : Words q

/-- No sum that an arrival makes wraps. -/
structure Fits (q : FairQueue) (pkt : Packet) : Prop extends RoundFits q pkt where
  bytes : q.queuesize + pkt.size < 2 ^ 64

instance (q : FairQueue) (pkt : Packet) : Decidable (q.Fits pkt) :=
  decidable_of_iff (q.RoundFits pkt ∧ q.queuesize + pkt.size < 2 ^ 64)
    ⟨fun h => ⟨h.1, h.2⟩, fun h => ⟨h.toRoundFits, h.bytes⟩⟩

/-- The sums of an arrival do not wrap. -/
def StepFits (s : State) : Act → Prop
  | .arrive pkt => s.q.Fits pkt
  | .complete => True

instance : ∀ s a, Decidable (StepFits s a)
  | s, .arrive pkt => inferInstanceAs (Decidable (s.q.Fits pkt))
  | _, .complete => inferInstanceAs (Decidable True)

theorem ledger_new (bitrate maxsize : Nat) (uninit : Option Packet) :
    Ledger (new bitrate maxsize uninit) where
  bytes := rfl
  sorted := List.Pairwise.nil
  ge_round := fun _ he => absurd he List.not_mem_nil
  nPackets := fun _ => rfl
  flowRound := fun _ => iff_of_true rfl rfl
  spaced := List.Pairwise.nil
  le_flowRound := fun _ he => absurd he List.not_mem_nil
  service := Or.inl rfl
  words := words_new bitrate maxsize uninit

variable {q q' : FairQueue} {pkt : Packet}

theorem Ledger.nPacketsOf (h : Ledger q) (f : Nat) : q.nPacketsOf f = q.count f :=
  nPacketsOf_eq (h.nPackets f)

/-- A flow with a packet waiting has a finish round. -/
theorem Ledger.exists_flowRound (h : Ledger q) {e : Nat × Packet} (he : e ∈ q.packets) :
    ∃ r, q.flowRound e.2.flow = some r := by
  refine Option.ne_none_iff_exists'.mp fun hnone => ?_
  have hwait := (count_eq_zero.mp ((h.flowRound _).mp hnone)).1
  exact absurd (List.mem_filter.mpr ⟨he, decide_eq_true rfl⟩) (hwait ▸ List.not_mem_nil)

/-! ## Arrival -/

/-- The tag of a packet is beyond the round number and the finish round of its flow. -/
theorem RoundFits.finishRound_ge (h : q.RoundFits pkt) :
    q.roundNumber + pkt.size ≤ q.finishRound pkt ∧
      ∀ r, q.flowRound pkt.flow = some r → r + pkt.size ≤ q.finishRound pkt := by
  obtain ⟨hround, hflow⟩ := baseRound_ge q pkt
  rw [h.finishRound_eq]
  exact ⟨Nat.add_le_add_right hround _, fun r hr => Nat.add_le_add_right (hflow r hr) _⟩

/-- The packets of the flow that wait have smaller tags. -/
theorem Ledger.le_finishRound (h : Ledger q) (hfits : q.RoundFits pkt) {e : Nat × Packet}
    (he : e ∈ q.packets) (hflow : e.2.flow = pkt.flow) (hsize : 1 ≤ e.2.size) :
    e.1 + pkt.size ≤ q.finishRound pkt := by
  obtain ⟨r, hr⟩ := h.exists_flowRound he
  have hle := h.le_flowRound e he hsize r hr
  have hadd := hfits.finishRound_ge.2 r (hflow ▸ hr)
  omega

theorem ledger_enqueue (h : Ledger q) (hfits : q.Fits pkt) : Ledger (q.enqueue pkt) := by
  have hround := hfits.finishRound_ge.1
  have hbelow := fun e he => @Ledger.le_finishRound q pkt h hfits.toRoundFits e he
  refine
    { bytes := ?_
      sorted := pairwise_insertByKey h.sorted
      ge_round := ?_
      nPackets := nPackets_enqueue h.nPackets hfits.count
      flowRound := ?_
      spaced := ?_
      le_flowRound := ?_
      service := h.service
      words := words_enqueue h.words pkt }
  · show Word.add 64 q.queuesize pkt.size =
      ((insertByKey _ _ q.packets).map _).sum + q.servedBytes
    rw [Word.add_of_lt hfits.bytes, ((perm_insertByKey _ _).map _).sum_nat, h.bytes, heldBytes,
      List.map_cons, List.sum_cons]
    dsimp only
    omega
  · intro e he
    rcases mem_insertByKey.mp he with rfl | he
    · show q.roundNumber ≤ q.finishRound pkt
      omega
    · exact h.ge_round e he
  · intro f
    rw [count_enqueue]
    show Function.update q.flowRound pkt.flow _ f = none ↔ _
    by_cases hf : pkt.flow = f
    · subst hf
      rw [Function.update_self, if_pos rfl]
      exact iff_of_false nofun (Nat.succ_ne_zero _)
    · rw [Function.update_of_ne (Ne.symm hf), if_neg hf, Nat.add_zero]
      exact h.flowRound f
  · refine pairwise_insertByKey_of h.spaced (fun e he _ hflow hsize _ => ?_)
      (fun e he hkey hflow hpkt hsize => ?_) h.sorted
    · exact hbelow e he hflow hsize
    · -- no packet of the flow is behind the new one
      have htag := hbelow e he hflow.symm hsize
      rcases Prod.Lex.toLex_lt_toLex.mp hkey with hlt | ⟨heq, -⟩
      · have hlt' : q.finishRound pkt < e.1 := hlt
        omega
      · have heq' : q.finishRound pkt = e.1 := heq
        have hpkt' : 1 ≤ pkt.size := hpkt
        omega
  -- the finish round of the flow is now the tag of the new packet
  · intro e he hsize r hr
    have hr' : Function.update q.flowRound pkt.flow (some (q.finishRound pkt)) e.2.flow =
      some r := hr
    rcases mem_insertByKey.mp he with rfl | he
    · rw [Function.update_self] at hr'
      exact (Option.some.inj hr').le
    · by_cases hf : e.2.flow = pkt.flow
      · rw [hf, Function.update_self] at hr'
        have hle := hbelow e he hf hsize
        have hr'' := Option.some.inj hr'
        omega
      · rw [Function.update_of_ne hf] at hr'
        exact h.le_flowRound e he hsize r hr'

/-! ## Tail drops -/

theorem dropTail_of_concat_bytes {l : List (Nat × Packet)} {tag : Nat} {p : Packet}
    (h : q.packets = l ++ [(tag, p)]) :
    q.dropTail.1.queuesize = Word.sub 64 q.queuesize p.size ∧ q.dropTail.1.maxsize = q.maxsize ∧
      q.dropTail.1.bitrate = q.bitrate ∧ q.dropTail.2 = [p] := by
  simp only [dropTail]
  rw [h, List.getLast?_concat]
  by_cases h1 : q.nPacketsOf p.flow = 1
  · simp only [h1, if_true, and_self]
  · simp only [h1, if_false, and_self]

theorem servedBytes_congr (hp : q'.pending = q.pending) (hc : q'.currentPkt = q.currentPkt) :
    q'.servedBytes = q.servedBytes := by
  simp only [servedBytes]
  rw [hp, hc]

theorem ledger_dropTail (h : Ledger q) : Ledger q.dropTail.1 := by
  -- with nothing to drop the queue is what it was
  rcases List.eq_nil_or_concat q.packets with hnil | ⟨l, ⟨tag, p⟩, hcat⟩
  · rw [dropTail_of_nil hnil]
    exact h
  rw [List.concat_eq_append] at hcat
  obtain ⟨hpkts, hround, hpend, hcur, hnp, hfr⟩ := dropTail_of_concat hcat
  obtain ⟨hsize, -, -, -⟩ := dropTail_of_concat_bytes hcat
  have hcount := count_dropTail hcat
  have hmem : ∀ e ∈ l, e ∈ q.packets := by
    intro e he
    rw [hcat]
    exact List.mem_append_left _ he
  have hlast : (tag, p) ∈ q.packets := by
    rw [hcat]
    exact List.mem_append_right _ List.mem_cons_self
  have hspaced := h.spaced
  rw [hcat, List.pairwise_append] at hspaced
  have hsorted := h.sorted
  rw [hcat, List.pairwise_append] at hsorted
  refine
    { bytes := ?_
      sorted := by rw [hpkts]; exact hsorted.1
      ge_round := by rw [hpkts, hround]; exact fun e he => h.ge_round e (hmem e he)
      nPackets := by rw [hnp]; exact nPackets_remove h.words h.nPackets hcount
      flowRound := ?_
      spaced := by rw [hpkts]; exact hspaced.1
      le_flowRound := ?_
      service := by rw [hpend, hcur]; exact h.service
      words := words_dropTail h.words }
  · have hbytes := h.bytes
    rw [heldBytes, hcat, List.map_append, List.sum_append, List.map_singleton,
      List.sum_singleton] at hbytes
    have hle : p.size ≤ q.queuesize := by
      dsimp only at hbytes
      omega
    rw [hsize, Word.sub_of_le hle h.words.queuesize, heldBytes, hpkts,
      servedBytes_congr hpend hcur, hbytes]
    dsimp only
    omega
  · intro f
    rw [hfr, h.nPacketsOf, hcount p.flow, if_pos rfl]
    by_cases hf : p.flow = f
    · subst hf
      rw [Function.update_self]
      simp only [Nat.add_eq_right]
      split_ifs with h0
      · exact iff_of_true rfl h0
      · exact iff_of_false nofun h0
    · have hother := hcount f
      rw [if_neg hf, Nat.add_zero] at hother
      rw [Function.update_of_ne (Ne.symm hf), ← hother]
      exact h.flowRound f
  · intro e he hpos r hr
    rw [hpkts] at he
    rw [hfr] at hr
    by_cases hf : e.2.flow = p.flow
    · rw [hf, Function.update_self] at hr
      split_ifs at hr
      have hr' := Option.some.inj hr
      obtain ⟨r₀, hr₀⟩ := h.exists_flowRound hlast
      have hr₀' : q.flowRound p.flow = some r₀ := hr₀
      have hword := h.words.flowRound _ _ hr₀'
      rw [hr₀', Option.getD_some] at hr'
      rcases Nat.eq_zero_or_pos p.size with hzero | hsz
      · -- a packet without a size leaves the finish round as it is
        have hle := h.le_flowRound e (hmem e he) hpos r₀ (hf ▸ hr₀')
        rw [hzero, Word.sub_zero hword] at hr'
        omega
      · have hle := h.le_flowRound _ hlast hsz r₀ hr₀
        have hgap := hspaced.2.2 e he (tag, p) List.mem_cons_self hf hpos hsz
        have hle' : tag ≤ r₀ := hle
        have hgap' : e.1 + p.size ≤ tag := hgap
        rw [Word.sub_of_le (by omega) hword] at hr'
        omega
    · rw [Function.update_of_ne hf] at hr
      exact h.le_flowRound e (hmem e he) hpos r hr

/-- With more in the queue than fits, and no more in service than fits, a packet waits. -/
theorem Ledger.packets_ne_nil (h : Ledger q) (hserved : q.servedBytes ≤ q.maxsize)
    (hover : q.maxsize < q.queuesize) : q.packets ≠ [] := by
  intro hnil
  have hbytes := h.bytes
  rw [heldBytes, hnil, List.map_nil, List.sum_nil] at hbytes
  omega

theorem dropTail_fields (q : FairQueue) :
    q.dropTail.1.maxsize = q.maxsize ∧ q.dropTail.1.bitrate = q.bitrate ∧
      q.dropTail.1.servedBytes = q.servedBytes ∧
      q.dropTail.1.roundNumber = q.roundNumber ∧
      q.dropTail.1.packets.length = q.packets.length - 1 ∧
      ∃ w, q.packets = q.dropTail.1.packets ++ w := by
  rcases List.eq_nil_or_concat q.packets with hnil | ⟨l, ⟨tag, p⟩, hcat⟩
  · rw [dropTail_of_nil hnil]
    refine ⟨rfl, rfl, rfl, rfl, ?_, [], (List.append_nil _).symm⟩
    rw [hnil]
    rfl
  · rw [List.concat_eq_append] at hcat
    obtain ⟨hpkts, hround, hpend, hcur, -, -⟩ := dropTail_of_concat hcat
    obtain ⟨-, hmax, hrate, -⟩ := dropTail_of_concat_bytes hcat
    refine ⟨hmax, hrate, servedBytes_congr hpend hcur, hround, ?_, [(tag, p)], ?_⟩
    · rw [hpkts, hcat, List.length_append, List.length_singleton]
      omega
    · rw [hpkts, hcat]

/-- The overflow loop: it keeps the ledger and only cuts the end of what waits; and where
    what is in service fits, what is left fits. -/
theorem ledger_dropOverflow (fuel : Nat) (q : FairQueue) (h : Ledger q) :
    Ledger (dropOverflow fuel q).1 ∧
      (dropOverflow fuel q).1.maxsize = q.maxsize ∧
      (dropOverflow fuel q).1.roundNumber = q.roundNumber ∧
      (∃ w, q.packets = (dropOverflow fuel q).1.packets ++ w) ∧
      (q.packets.length ≤ fuel → q.servedBytes ≤ q.maxsize →
        (dropOverflow fuel q).1.queuesize ≤ q.maxsize) := by
  -- as many rounds as packets are enough: each drops one while the bytes are too many
  induction fuel generalizing q with
  | zero =>
    refine ⟨h, rfl, rfl, ⟨[], (List.append_nil _).symm⟩, fun hlen hserved => ?_⟩
    by_contra hover
    exact h.packets_ne_nil hserved (not_le.mp hover) (List.length_eq_zero_iff.mp
      (Nat.le_zero.mp hlen))
  | succ fuel ih =>
    simp only [dropOverflow]
    by_cases hover : q.maxsize < q.queuesize
    · rw [if_pos hover]
      obtain ⟨hledger, hmax, hround, ⟨w, hw⟩, hfits⟩ := ih q.dropTail.1 (ledger_dropTail h)
      obtain ⟨hmax', -, hserved', hround', hlen', w', hw'⟩ := dropTail_fields q
      refine ⟨hledger, hmax.trans hmax', hround.trans hround', ⟨w ++ w', ?_⟩,
        fun hlen hserved => ?_⟩
      · rw [← List.append_assoc, ← hw, ← hw']
      · rw [← hmax']
        exact hfits (by omega) (by omega)
    · rw [if_neg hover]
      exact ⟨h, rfl, rfl, ⟨[], (List.append_nil _).symm⟩, fun _ _ => not_lt.mp hover⟩

/-- The storing half of an arrival. -/
theorem ledger_store (h : Ledger q) (hle : q.queuesize ≤ q.maxsize) (hfits : q.Fits pkt) :
    Ledger (q.store pkt).1 ∧ (q.store pkt).1.queuesize ≤ (q.store pkt).1.maxsize ∧
      (q.store pkt).1.roundNumber = q.roundNumber ∧
      ∃ w, (q.enqueue pkt).packets = (q.store pkt).1.packets ++ w := by
  obtain ⟨hledger, hmax, hround, hcut, hroom⟩ :=
    ledger_dropOverflow (q.enqueue pkt).packets.length (q.enqueue pkt) (ledger_enqueue h hfits)
  refine ⟨hledger, ?_, hround, hcut⟩
  have hbytes := h.bytes
  have hserved : (q.enqueue pkt).servedBytes = q.servedBytes := rfl
  show _ ≤ (dropOverflow _ (q.enqueue pkt)).1.maxsize
  rw [hmax]
  refine hroom le_rfl ?_
  show _ ≤ q.maxsize
  rw [heldBytes] at hbytes
  omega

/-! ## Service -/

theorem finishService_bytes (hfin : q.finishService = some (q', pkt)) :
    ∃ p, q.currentPkt = some p ∧ q'.queuesize = Word.sub 64 q.queuesize p.size ∧
      q'.maxsize = q.maxsize ∧ q'.currentPkt = none ∧ q.pending ≠ 0 := by
  unfold finishService at hfin
  split at hfin
  next n p hpend hcur =>
    cases hfin
    refine ⟨p, hcur, rfl, ?_, rfl, by omega⟩
    simp only [forgetServed]
    split_ifs
    · rfl
    · rfl
  next => cases hfin

/-- A completion takes the packet in service off the ledger. -/
theorem ledger_finishService (h : Ledger q) (hfin : q.finishService = some (q', pkt)) :
    Ledger q' ∧ q'.pending = 0 ∧ q'.currentPkt = none ∧ q'.packets = q.packets ∧
      q'.roundNumber = q.roundNumber ∧ q'.maxsize = q.maxsize ∧
      q'.queuesize ≤ q.queuesize := by
  obtain ⟨p, hcur, hpend, hpend', hpkts, hround, hnp, hfr⟩ := finishService_eq_some h.service hfin
  obtain ⟨p', hcur', hbytes, hmax, hnone, -⟩ := finishService_bytes hfin
  obtain rfl : p = p' := Option.some.inj (hcur.symm.trans hcur')
  obtain ⟨-, -, hnp', hfr'⟩ := @forgetServed_spec q p.flow
  have hcount := count_finishService h.service hfin hcur
  have hheld := h.bytes
  rw [heldBytes, servedBytes, if_neg (by omega), hcur, Option.map_some, Option.getD_some] at hheld
  rw [Word.sub_of_le (by omega) h.words.queuesize] at hbytes
  refine ⟨?_, hpend', hnone, hpkts, hround, hmax, by omega⟩
  refine
    { bytes := ?_
      sorted := by rw [hpkts]; exact h.sorted
      ge_round := by rw [hpkts, hround]; exact h.ge_round
      nPackets := by rw [hnp, hnp']; exact nPackets_remove h.words h.nPackets hcount
      flowRound := ?_
      spaced := by rw [hpkts]; exact h.spaced
      le_flowRound := ?_
      service := Or.inl hpend'
      words := words_finishService h.words hfin }
  · rw [hbytes, heldBytes, servedBytes, if_pos hpend', hpkts, hheld]
    exact Nat.add_sub_cancel _ _
  · intro f
    rw [hfr, hfr', h.nPacketsOf, hcount p.flow, if_pos rfl]
    simp only [Nat.add_eq_right]
    have hself := hcount f
    by_cases hf : p.flow = f
    · subst hf
      rw [if_pos rfl] at hself
      split_ifs with h0
      · rw [Function.update_self]
        exact iff_of_true rfl h0
      · exact ((h.flowRound p.flow).trans (by omega)).trans Iff.rfl
    · rw [if_neg hf, Nat.add_zero] at hself
      rw [← hself, ← h.flowRound f]
      split_ifs
      · rw [Function.update_of_ne (Ne.symm hf)]
      · exact Iff.rfl
  · intro e he hsize r hr
    rw [hpkts] at he
    refine h.le_flowRound e he hsize r ?_
    rw [hfr, hfr'] at hr
    split_ifs at hr
    · by_cases hf : e.2.flow = p.flow
      · rw [hf, Function.update_self] at hr
        cases hr
      · rw [Function.update_of_ne hf] at hr
        exact hr
    · exact hr

/-- Taking a packet into service moves bytes and counts, and changes neither. -/
theorem ledger_beginService (h : Ledger q) (hidle : q.pending = 0) :
    Ledger q.beginService.1 ∧ q.roundNumber ≤ q.beginService.1.roundNumber ∧
      q.beginService.1.queuesize = q.queuesize ∧ q.beginService.1.maxsize = q.maxsize ∧
      q.beginService.2 ++ q.beginService.1.packets.map Prod.snd = q.packets.map Prod.snd := by
  cases hpkts : q.packets with
  | nil =>
    rw [beginService_of_nil hpkts]
    refine ⟨h, le_rfl, rfl, rfl, ?_⟩
    rw [hpkts]
    rfl
  | cons e rest =>
    have hround : q.roundNumber ≤ e.1 := h.ge_round e (hpkts ▸ List.mem_cons_self)
    have hmem : ∀ x ∈ rest, x ∈ q.packets := by
      intro x hx
      rw [hpkts]
      exact List.mem_cons_of_mem _ hx
    have hsorted := h.sorted
    rw [hpkts, List.pairwise_cons] at hsorted
    have hspaced := h.spaced
    rw [hpkts, List.pairwise_cons] at hspaced
    have hq' := congrArg Prod.fst (beginService_of_cons hpkts)
    refine ⟨?_, by rw [hq']; exact hround, by rw [hq'], by rw [hq'], ?_⟩
    · refine
        { bytes := ?_
          sorted := by rw [hq']; exact hsorted.2
          ge_round := by rw [hq']; exact tag_le_of_sorted hsorted.1
          nPackets := fun f => by rw [count_beginService hidle, hq']; exact h.nPackets f
          flowRound := fun f => by rw [count_beginService hidle, hq']; exact h.flowRound f
          spaced := by rw [hq']; exact hspaced.2
          le_flowRound := by
            rw [hq']
            exact fun x hx => h.le_flowRound x (hmem x hx)
          service := by rw [hq', hidle]; exact Or.inr ⟨rfl, rfl⟩
          words := words_beginService h.words }
      have hheld := h.bytes
      rw [heldBytes, servedBytes, if_pos hidle, hpkts, List.map_cons, List.sum_cons] at hheld
      rw [hq']
      show q.queuesize = _
      rw [hheld, heldBytes, servedBytes, if_neg (Nat.succ_ne_zero _)]
      show _ = (rest.map _).sum + e.2.size
      omega
    · rw [beginService_of_cons hpkts]
      rfl

/-! ## Runs -/

/-- The ledger is right, and what it says is in the queue fits. -/
structure Solvent (q : FairQueue) : Prop where
  ledger : Ledger q
  fits : q.queuesize ≤ q.maxsize

theorem solvent_new (bitrate maxsize : Nat) (uninit : Option Packet) :
    Solvent (new bitrate maxsize uninit) where
  ledger := ledger_new bitrate maxsize uninit
  fits := Nat.zero_le _

theorem Solvent.beginService (h : Solvent q) (hidle : q.pending = 0) :
    Solvent q.beginService.1 := by
  obtain ⟨hledger, -, hbytes, hmax, -⟩ := ledger_beginService h.ledger hidle
  refine ⟨hledger, ?_⟩
  rw [hbytes, hmax]
  exact h.fits

theorem Ledger.idle_of_wasEmpty (h : Ledger q) (hempty : q.wasEmpty = true) : q.pending = 0 := by
  simp only [wasEmpty, Bool.and_eq_true, Option.isNone_iff_eq_none] at hempty
  rcases h.service with h0 | ⟨-, hsome⟩
  · exact h0
  · rw [hempty.1] at hsome
    exact absurd hsome Bool.false_ne_true

/-- An arrival, and that the round number does not go back in it. -/
theorem Solvent.receivePacket (h : Solvent q) (hfits : q.Fits pkt) :
    Solvent (q.receivePacket pkt).1 ∧ q.roundNumber ≤ (q.receivePacket pkt).1.roundNumber ∧
      (q.receivePacket pkt).2 ++ (q.receivePacket pkt).1.packets.map Prod.snd =
        (q.store pkt).1.packets.map Prod.snd := by
  obtain ⟨hledger, hroom, hround, -⟩ := ledger_store h.ledger h.fits hfits
  simp only [FairQueue.receivePacket]
  split_ifs with hempty
  · have hidle : (q.store pkt).1.pending = 0 :=
      (dropOverflow_service _ _).1.trans (h.ledger.idle_of_wasEmpty hempty)
    obtain ⟨-, hle, -, -, htaken⟩ := ledger_beginService hledger hidle
    exact ⟨Solvent.beginService ⟨hledger, hroom⟩ hidle, hround ▸ hle, htaken⟩
  · exact ⟨⟨hledger, hroom⟩, hround.ge, rfl⟩

/-- A completion, and that the round number does not go back in it. -/
theorem Solvent.completeService (h : Solvent q) {r : FairQueue × List Packet}
    (hr : q.completeService = some r) :
    Solvent r.1 ∧ q.roundNumber ≤ r.1.roundNumber ∧
      r.2 ++ r.1.packets.map Prod.snd = q.packets.map Prod.snd := by
  obtain ⟨⟨q', pkt⟩, hfin, rfl⟩ := Option.map_eq_some_iff.mp hr
  obtain ⟨hledger, hidle, -, hpkts, hround, hmax, hbytes⟩ := ledger_finishService h.ledger hfin
  have hsolvent : Solvent q' := ⟨hledger, by rw [hmax]; exact hbytes.trans h.fits⟩
  obtain ⟨-, hle, -, -, htaken⟩ := ledger_beginService hledger hidle
  exact ⟨hsolvent.beginService hidle, hround ▸ hle, by rw [← hpkts]; exact htaken⟩

/-- The packets that a sequence of handler calls brought. -/
def arrivals (as : List Act) : List Packet :=
  as.filterMap fun
    | .arrive pkt => some pkt
    | .complete => none

/-- Of each flow, those taken into service and those that wait are in the order of arrival. -/
structure InOrder (as : List Act) (s : State) : Prop where
  size_pos : ∀ e ∈ s.q.packets, 1 ≤ e.2.size
  order : ∀ f, ((s.taken ++ s.q.packets.map Prod.snd).filter fun p => p.flow = f).Sublist
    ((arrivals as).filter fun p => p.flow = f)

/-- A packet that has a size goes behind the others of its flow. -/
theorem Ledger.waiting_enqueue (h : Ledger q) (hfits : q.RoundFits pkt)
    (hsized : ∀ e ∈ q.packets, 1 ≤ e.2.size) (hpos : 1 ≤ pkt.size) (f : Nat) :
    (q.enqueue pkt).waiting f =
      q.waiting f ++ if pkt.flow = f then [(q.finishRound pkt, pkt)] else [] := by
  by_cases hf : pkt.flow = f
  · rw [if_pos hf]
    refine filter_insertByKey_of_le (decide_eq_true hf) h.sorted fun y hy hyf => ?_
    have htag := h.le_finishRound hfits hy ((of_decide_eq_true hyf).trans hf.symm) (hsized y hy)
    exact Prod.Lex.toLex_le_toLex.mpr (Or.inl (by show y.1 < q.finishRound pkt; omega))
  · rw [if_neg hf, List.append_nil, waiting_enqueue_ne hf]

theorem filter_snd (l : List (Nat × Packet)) (f : Nat) :
    (l.map Prod.snd).filter (fun p => p.flow = f) =
      (l.filter fun e => e.2.flow = f).map Prod.snd := List.filter_map

theorem inOrder_step {as : List Act} {s t : State} {a : Act} (hs : Solvent s.q)
    (h : InOrder as s) (ha : ∀ pkt, a = .arrive pkt → 1 ≤ pkt.size) (hfits : StepFits s a)
    (hstep : system.step s a = some t) : InOrder (as ++ [a]) t := by
  obtain ⟨r, hr, rfl⟩ := Option.map_eq_some_iff.mp hstep
  have harr : arrivals (as ++ [a]) = arrivals as ++ arrivals [a] := List.filterMap_append
  cases a with
  | arrive pkt =>
    cases hr
    have hpos := ha pkt rfl
    refine ⟨fun e he => ?_, fun f => ?_⟩
    · rcases mem_packets_receivePacket he with heq | hmem
      · rw [heq]
        exact hpos
      · exact h.size_pos e hmem
    · have hpkt : s.q.Fits pkt := hfits
      obtain ⟨-, -, htaken⟩ := hs.receivePacket hpkt
      obtain ⟨-, -, -, w, hcut⟩ := ledger_store hs.ledger hs.fits hpkt
      -- what is not dropped is the front of what was there with the new packet behind
      have hwait := hs.ledger.waiting_enqueue hpkt.toRoundFits h.size_pos hpos f
      have hkept : ((s.q.store pkt).1.packets.filter fun e => e.2.flow = f).Sublist
          (s.q.waiting f ++ if pkt.flow = f then [(s.q.finishRound pkt, pkt)] else []) := by
        rw [← hwait, waiting, hcut]
        exact (List.sublist_append_left _ _).filter _
      show ((s.taken ++ _ ++ _).filter _).Sublist _
      rw [List.append_assoc, htaken, harr, List.filter_append, List.filter_append, filter_snd]
      have hbefore := h.order f
      rw [List.filter_append, filter_snd] at hbefore
      have hmap := (hkept.map Prod.snd).append_left (s.taken.filter fun p => p.flow = f)
      refine hmap.trans ?_
      rw [List.map_append, ← List.append_assoc]
      refine hbefore.append ?_
      by_cases hf : pkt.flow = f
      · rw [if_pos hf]
        have hself : [pkt].filter (fun p => p.flow = f) = [pkt] :=
          List.filter_cons_of_pos (decide_eq_true hf)
        exact hself.symm ▸ List.Sublist.refl _
      · rw [if_neg hf]
        exact List.nil_sublist _
  | complete =>
    obtain ⟨-, -, htaken⟩ := hs.completeService hr
    have hmem : ∀ e ∈ r.1.packets, e.2 ∈ s.q.packets.map Prod.snd := by
      intro e he
      rw [← htaken]
      exact List.mem_append_right _ (List.mem_map_of_mem he)
    refine ⟨fun e he => ?_, fun f => ?_⟩
    · obtain ⟨e', he', heq⟩ := List.mem_map.mp (hmem e he)
      rw [← heq]
      exact h.size_pos e' he'
    · show ((s.taken ++ _ ++ _).filter _).Sublist _
      rw [List.append_assoc, htaken, harr]
      exact (h.order f).trans ((List.sublist_append_left _ _).filter _)

theorem solvent_step {s t : State} {a : Act} (hs : Solvent s.q) (hfits : StepFits s a)
    (hstep : system.step s a = some t) :
    Solvent t.q ∧ s.q.roundNumber ≤ t.q.roundNumber := by
  obtain ⟨r, hr, rfl⟩ := Option.map_eq_some_iff.mp hstep
  cases a with
  | arrive pkt =>
    cases hr
    have hpkt : s.q.Fits pkt := hfits
    exact ⟨(hs.receivePacket hpkt).1, (hs.receivePacket hpkt).2.1⟩
  | complete => exact ⟨(hs.completeService hr).1, (hs.completeService hr).2.1⟩

/-- The ledger is right in every state that arrivals which fit lead to. -/
theorem ledger_of_run {bitrate maxsize : Nat} {uninit : Option Packet} {as : List Act}
    {s : State} (hfits : system.Along StepFits (init bitrate maxsize uninit) as)
    (hrun : system.run (init bitrate maxsize uninit) as = some s) : Solvent s.q :=
  Lts.run_induction_along (I := fun u => Solvent u.q)
    (fun _ _ _ hu ha hstep => (solvent_step hu ha hstep).1)
    (solvent_new bitrate maxsize uninit) hfits hrun

/-- The state after `k` rounds of the overflow loop for an arrival. -/
def overflowing (q : FairQueue) (pkt : Packet) (k : Nat) : FairQueue :=
  (fun r => r.dropTail.1)^[k] (q.enqueue pkt)

/-- While there is more than fits, a packet is there to drop. -/
theorem Solvent.overflowing_ne_nil (h : Solvent q) (hfits : q.Fits pkt) (k : Nat)
    (hover : (q.overflowing pkt k).maxsize < (q.overflowing pkt k).queuesize) :
    (q.overflowing pkt k).packets ≠ [] := by
  have hkept : Ledger (q.overflowing pkt k) ∧ (q.overflowing pkt k).maxsize = q.maxsize ∧
      (q.overflowing pkt k).servedBytes = q.servedBytes := by
    clear hover
    induction k with
    | zero => exact ⟨ledger_enqueue h.ledger hfits, rfl, rfl⟩
    | succ k ih =>
      obtain ⟨hledger, hmax, hserved⟩ := ih
      obtain ⟨hmax', -, hserved', -⟩ := dropTail_fields (q.overflowing pkt k)
      simp only [overflowing, Function.iterate_succ_apply'] at hledger hmax hserved ⊢
      exact ⟨ledger_dropTail hledger, hmax'.trans hmax, hserved'.trans hserved⟩
  obtain ⟨hledger, hmax, hserved⟩ := hkept
  -- what is in service was in the queue before, and fits
  refine hledger.packets_ne_nil ?_ hover
  have hbytes := h.ledger.bytes
  have hroom := h.fits
  rw [hserved, hmax]
  rw [heldBytes] at hbytes
  omega

/-- Packets of `f` that wait or are in service. -/
def present (q : FairQueue) (f : Nat) : Nat :=
  ((q.packets.map Prod.snd ++ q.currentPkt.toList).filter fun p => p.flow = f).length

/-- The books of the queue after the handler calls `as`. -/
structure Booked (as : List Act) (s : State) : Prop where
  queuesize : s.q.queuesize =
    (s.q.packets.map fun e => e.2.size).sum + (s.q.currentPkt.map Packet.size).getD 0
  queuesize_le : s.q.queuesize ≤ s.q.maxsize
  nPackets : ∀ f, s.q.nPackets f = if s.q.present f = 0 then none else some (s.q.present f)
  flowRound : ∀ f, s.q.flowRound f = none ↔ s.q.nPackets f = none
  round_le : ∀ e ∈ s.q.packets, s.q.roundNumber ≤ e.1
  order : ∀ f, ((s.taken ++ s.q.packets.map Prod.snd).filter fun p => p.flow = f).Sublist
    ((arrivals as).filter fun p => p.flow = f)

/-- With `_currentPkt` null at first, it is the packet in service. -/
theorem inService_of_serving {taken : List Packet} (h : server.Serving q taken) :
    q.servedBytes = (q.currentPkt.map Packet.size).getD 0 ∧ ∀ f, q.count f = q.present f := by
  have hpresent : ∀ f, q.present f =
      (q.waiting f).length + (q.currentPkt.toList.filter fun p => p.flow = f).length := by
    intro f
    rw [present, List.filter_append, filter_snd, List.length_append, List.length_map]
    rfl
  rcases h with hidle | hbusy
  · have hpend : q.pending = 0 := hidle.pending
    have hcur : q.currentPkt = none := hidle.current
    refine ⟨?_, fun f => ?_⟩
    · rw [servedBytes, if_pos hpend, hcur]
      rfl
    · rw [hpresent, count, inService, if_pos hpend, hcur]
      rfl
  · have hpend : q.pending = 1 := hbusy.pending
    obtain ⟨p, hcur, -⟩ := hbusy.current
    replace hcur : q.currentPkt = some p := hcur
    refine ⟨if_neg (by omega), fun f => ?_⟩
    rw [hpresent, count, inService, if_neg (by omega), hcur]
    by_cases hf : p.flow = f
    · simp [hf]
    · simp [hf]

/-- The queue keeps its books for packets of any sizes from 1 on and any `_maxsize` while no
    sum wraps: the state is booked, the round number only grows, and no round of the overflow
    loop finds `_packets` empty. -/
theorem books_balance (bitrate maxsize : Nat) (as : List Act) (s : State)
    (hpos : ∀ pkt, .arrive pkt ∈ as → 1 ≤ pkt.size)
    (hfits : system.Along StepFits (init bitrate maxsize none) as)
    (hrun : system.run (init bitrate maxsize none) as = some s) :
    Booked as s ∧
      (∀ a t, StepFits s a → system.step s a = some t → s.q.roundNumber ≤ t.q.roundNumber) ∧
      ∀ pkt k, s.q.Fits pkt →
        (∀ j ≤ k, (s.q.overflowing pkt j).maxsize < (s.q.overflowing pkt j).queuesize) →
          (s.q.overflowing pkt k).packets ≠ [] := by
  have hs := ledger_of_run hfits hrun
  obtain ⟨hserved, hcount⟩ := inService_of_serving (serving_of_run hrun)
  -- the order needs packets with a size, the rest of the ledger does not
  have horder : Solvent s.q ∧ ((∀ pkt, .arrive pkt ∈ as → 1 ≤ pkt.size) → InOrder as s) := by
    refine Lts.run_induction_labels_along (I := fun bs u =>
      Solvent u.q ∧ ((∀ pkt, .arrive pkt ∈ bs → 1 ≤ pkt.size) → InOrder bs u))
      (fun bs u a v hu ha hstep => ?_) ⟨solvent_new bitrate maxsize none, fun _ => ?_⟩ hfits hrun
    · refine ⟨(solvent_step hu.1 ha hstep).1, fun hsized => ?_⟩
      have hbefore := hu.2 fun pkt hmem => hsized pkt (List.mem_append_left _ hmem)
      refine inOrder_step hu.1 hbefore (fun pkt hpkt => hsized pkt ?_) ha hstep
      rw [hpkt]
      exact List.mem_append_right _ List.mem_cons_self
    · exact ⟨fun _ he => absurd he List.not_mem_nil, fun _ => List.Sublist.refl _⟩
  refine ⟨?_, fun a t ha hstep => (solvent_step hs ha hstep).2, fun pkt k hpkt hover => ?_⟩
  · exact
      { queuesize := by rw [hs.ledger.bytes, heldBytes, hserved]
        queuesize_le := hs.fits
        nPackets := fun f => by rw [hs.ledger.nPackets, hcount]
        flowRound := fun f => by
          rw [hs.ledger.flowRound, hs.ledger.nPackets]
          split_ifs with h0
          · exact iff_of_true h0 rfl
          · exact iff_of_false h0 nofun
        round_le := hs.ledger.ge_round
        order := (horder.2 hpos).order }
  · exact hs.overflowing_ne_nil hpkt k (hover k le_rfl)

/-- The packet of the second flow has the last one of the first dropped. -/
theorem books_balance_overflow :
    ∃ s, system.run (init 1000 600 none)
        [.arrive ⟨1, 100, 1, false⟩, .arrive ⟨1, 150, 2, false⟩, .arrive ⟨1, 150, 3, false⟩,
          .arrive ⟨1, 150, 4, false⟩, .complete, .arrive ⟨2, 240, 1, false⟩] = some s ∧
      Booked
        [.arrive ⟨1, 100, 1, false⟩, .arrive ⟨1, 150, 2, false⟩, .arrive ⟨1, 150, 3, false⟩,
          .arrive ⟨1, 150, 4, false⟩, .complete, .arrive ⟨2, 240, 1, false⟩] s ∧
      (∀ a t, StepFits s a → system.step s a = some t → s.q.roundNumber ≤ t.q.roundNumber) ∧
      ∀ pkt k, s.q.Fits pkt →
        (∀ j ≤ k, (s.q.overflowing pkt j).maxsize < (s.q.overflowing pkt j).queuesize) →
          (s.q.overflowing pkt k).packets ≠ [] := by
  refine ⟨(system.run _ _).get (by decide +kernel), (Option.some_get _).symm,
    books_balance 1000 600 _ _ (fun pkt hmem => ?_) (by decide +kernel) (Option.some_get _).symm⟩
  simp only [List.mem_cons, Act.arrive.injEq, reduceCtorEq, false_or, List.not_mem_nil,
    or_false] at hmem
  rcases hmem with rfl | rfl | rfl | rfl | rfl <;> decide

/-- After `2 ^ 64` bytes of one flow the tag of a waiting packet is 0 and the round number is
    not. -/
theorem books_wrapped :
    ¬ ∀ (bitrate maxsize : Nat) (as : List Act) (s : State),
      (∀ pkt, .arrive pkt ∈ as → 1 ≤ pkt.size) →
      system.run (init bitrate maxsize none) as = some s →
      Booked as s ∧
        (∀ a t, system.step s a = some t → s.q.roundNumber ≤ t.q.roundNumber) ∧
        ∀ pkt k,
          (∀ j ≤ k, (s.q.overflowing pkt j).maxsize < (s.q.overflowing pkt j).queuesize) →
            (s.q.overflowing pkt k).packets ≠ [] := by
  intro hall
  let s := (system.run ⟨aged (2 ^ 31) (2 ^ 34 - 3), List.replicate (2 ^ 34 - 3 + 1) (block 0 0)⟩
    [.complete, .arrive (block 0 0)]).get (by decide +kernel)
  have hrun : system.run (init 10000000000 (2 ^ 31) none)
      (ageing (2 ^ 34 - 3) ++ [.complete, .arrive (block 0 0)]) = some s :=
    Lts.run_trans (run_ageing le_rfl (2 ^ 34 - 3) (by decide)) (Option.some_get _).symm
  have hbooked := (hall _ _ _ s (fun pkt hmem => ?_) hrun).1
  · have hle := hbooked.round_le (0, block 0 0) (by decide +kernel)
    exact absurd hle (by decide +kernel)
  · have hsize : pkt.size = 2 ^ 30 := by
      simp only [List.mem_append, List.mem_cons, Act.arrive.injEq, reduceCtorEq,
        List.not_mem_nil, false_or, or_false] at hmem
      rcases hmem with hmem | rfl
      · exact size_of_mem_ageing hmem
      · rfl
    rw [hsize]
    exact Nat.one_le_two_pow

/-! ## Drops that leave no trace

A tail drop takes the size of the packet back from the finish round.  When the arrival had
computed the tag from the round number, this gives the round number, and not the finish
round that was there before.  Both are then no later than the round number, and the next
arrival of the flow starts from the round number either way. -/

/-- What a handler call lets the outside see: the packets it takes into service with their
    tags, the packet it sends on, and the packets it drops. -/
structure Seen where
  taken : List (Nat × Packet)
  departed : Option Packet
  dropped : List Packet

def seen (q : FairQueue) : Act → Seen
  | .arrive pkt =>
      { taken := if q.wasEmpty then (q.store pkt).1.packets.take 1 else []
        departed := none
        dropped := (q.store pkt).2 }
  | .complete =>
      { taken := (q.finishService.map fun r => r.1.packets.take 1).getD []
        departed := q.finishService.map Prod.snd
        dropped := [] }

/-- What is seen of a sequence of handler calls, if they can all be made. -/
def trace (q : FairQueue) : List Act → Option (List Seen)
  | [] => some []
  | a :: as => (q.handle a).bind fun r => (trace r.1 as).map (q.seen a :: ·)

/-- The finish rounds of a flow agree, or both are over and nothing that has a size waits. -/
def Lapsed (q : FairQueue) (f : Nat) (r r' : Option Nat) : Prop :=
  r = r' ∨ ((∃ n n', r = some n ∧ r' = some n' ∧ n ≤ q.roundNumber ∧ n' ≤ q.roundNumber) ∧
    ∀ e ∈ q.packets, e.2.flow = f → e.2.size = 0)

/-- The queue with other finish rounds. -/
def withRounds (q : FairQueue) (rounds : Nat → Option Nat) : FairQueue :=
  { q with flowRound := rounds }

/-- The queues differ in finish rounds that are over. -/
def Alike (q q' : FairQueue) : Prop :=
  ∃ rounds, q' = q.withRounds rounds ∧ ∀ f, Lapsed q f (q.flowRound f) (rounds f)

theorem Lapsed.mono {f : Nat} {r r' : Option Nat} (h : Lapsed q f r r')
    (hround : q.roundNumber ≤ q'.roundNumber)
    (hmem : ∀ e ∈ q'.packets, e.2.flow = f → e ∈ q.packets) : Lapsed q' f r r' := by
  rcases h with heq | ⟨⟨n, n', hn, hn', hle, hle'⟩, hzero⟩
  · exact Or.inl heq
  · exact Or.inr ⟨⟨n, n', hn, hn', hle.trans hround, hle'.trans hround⟩,
      fun e he hf => hzero e (hmem e he hf) hf⟩

/-- An arrival gets the same tag. -/
theorem finishRound_withRounds {rounds : Nat → Option Nat}
    (h : Lapsed q pkt.flow (q.flowRound pkt.flow) (rounds pkt.flow)) :
    (q.withRounds rounds).finishRound pkt = q.finishRound pkt := by
  rw [finishRound, finishRound]
  refine congrArg (fun r => Word.add 64 r pkt.size) ?_
  simp only [baseRound, withRounds]
  rcases h with heq | ⟨⟨n, n', hn, hn', hle, hle'⟩, -⟩
  · rw [heq]
    rfl
  · rw [hn, hn']
    simp only [not_lt.mpr hle, not_lt.mpr hle', if_false]

theorem alike_enqueue (h : Alike q q') (pkt : Packet) : Alike (q.enqueue pkt) (q'.enqueue pkt) := by
  obtain ⟨rounds, rfl, hlapsed⟩ := h
  have htag := finishRound_withRounds (hlapsed pkt.flow)
  refine ⟨Function.update rounds pkt.flow (some (q.finishRound pkt)), ?_, fun f => ?_⟩
  · simp only [enqueue, htag]
    rfl
  · show Lapsed _ f (Function.update q.flowRound pkt.flow _ f) _
    by_cases hf : f = pkt.flow
    · subst hf
      rw [Function.update_self, Function.update_self]
      exact Or.inl rfl
    · rw [Function.update_of_ne hf, Function.update_of_ne hf]
      refine (hlapsed f).mono le_rfl fun e he hflow => ?_
      rcases mem_insertByKey.mp he with rfl | he
      · exact absurd hflow.symm hf
      · exact he

theorem alike_dropTail (h : Alike q q') :
    Alike q.dropTail.1 q'.dropTail.1 ∧ q'.dropTail.2 = q.dropTail.2 := by
  obtain ⟨rounds, rfl, hlapsed⟩ := h
  rcases List.eq_nil_or_concat q.packets with hnil | ⟨l, ⟨tag, p⟩, hcat⟩
  · rw [dropTail_of_nil hnil, dropTail_of_nil (q := q.withRounds rounds) hnil]
    exact ⟨⟨rounds, rfl, hlapsed⟩, rfl⟩
  rw [List.concat_eq_append] at hcat
  obtain ⟨hpkts, hround, -, -, -, hfr⟩ := dropTail_of_concat hcat
  have hmem : ∀ f, ∀ e ∈ q.dropTail.1.packets, e.2.flow = f → e ∈ q.packets := by
    intro f e he _
    rw [hpkts] at he
    rw [hcat]
    exact List.mem_append_left _ he
  have hlast : (tag, p) ∈ q.packets := by
    rw [hcat]
    exact List.mem_append_right _ List.mem_cons_self
  -- the finish round goes back by the size of the packet in both queues
  refine ⟨⟨Function.update rounds p.flow (if q.nPacketsOf p.flow = 1 then none
    else some (Word.sub 64 ((rounds p.flow).getD 0) p.size)), ?_, fun f => ?_⟩, ?_⟩
  · have hcat' : (q.withRounds rounds).packets.getLast? = some (tag, p) := by
      show q.packets.getLast? = _
      rw [hcat, List.getLast?_concat]
    have hcat'' : q.packets.getLast? = some (tag, p) := hcat'
    have hn : (q.withRounds rounds).nPacketsOf p.flow = q.nPacketsOf p.flow := rfl
    simp only [dropTail, hcat', hcat'', hn]
    split_ifs
    · rfl
    · rfl
  · rw [hfr]
    by_cases hf : f = p.flow
    · subst hf
      rw [Function.update_self, Function.update_self]
      split_ifs
      · exact Or.inl rfl
      · rcases hlapsed p.flow with heq | ⟨⟨n, n', hn, hn', hle, hle'⟩, hzero⟩
        · rw [heq]
          exact Or.inl rfl
        · -- the dropped packet takes nothing back
          have hsize : p.size = 0 := hzero _ hlast rfl
          rw [hn, hn', hsize]
          have hkept : Lapsed q p.flow (some (Word.sub 64 n 0)) (some (Word.sub 64 n' 0)) :=
            Or.inr ⟨⟨_, _, rfl, rfl, (Word.sub_zero_le n).trans hle,
              (Word.sub_zero_le n').trans hle'⟩, hzero⟩
          exact hkept.mono hround.ge (hmem _)
    · rw [Function.update_of_ne hf, Function.update_of_ne hf]
      exact (hlapsed f).mono hround.ge (hmem f)
  · rw [(dropTail_of_concat_bytes hcat).2.2.2, (dropTail_of_concat_bytes
      (q := q.withRounds rounds) hcat).2.2.2]

theorem alike_dropOverflow (fuel : Nat) (h : Alike q q') :
    Alike (dropOverflow fuel q).1 (dropOverflow fuel q').1 ∧
      (dropOverflow fuel q').2 = (dropOverflow fuel q).2 := by
  induction fuel generalizing q q' with
  | zero => exact ⟨h, rfl⟩
  | succ fuel ih =>
    obtain ⟨hdrop, hdropped⟩ := alike_dropTail h
    obtain ⟨hrest, hrestDropped⟩ := ih hdrop
    have hsame : (q'.maxsize < q'.queuesize) = (q.maxsize < q.queuesize) := by
      obtain ⟨rounds, rfl, -⟩ := h
      rfl
    simp only [dropOverflow, hsame]
    split_ifs
    · exact ⟨hrest, by rw [hdropped, hrestDropped]⟩
    · exact ⟨h, rfl⟩

theorem alike_store (h : Alike q q') (pkt : Packet) :
    Alike (q.store pkt).1 (q'.store pkt).1 ∧ (q'.store pkt).2 = (q.store pkt).2 := by
  have henqueue := alike_enqueue h pkt
  have hlen : (q'.enqueue pkt).packets = (q.enqueue pkt).packets := by
    obtain ⟨rounds, heq, -⟩ := henqueue
    rw [heq]
    rfl
  rw [store, store, hlen]
  exact alike_dropOverflow _ henqueue

theorem Alike.packets (h : Alike q q') : q'.packets = q.packets := by
  obtain ⟨rounds, rfl, -⟩ := h
  rfl

theorem alike_beginService (h : Alike q q') (hround : ∀ e ∈ q.packets, q.roundNumber ≤ e.1) :
    Alike q.beginService.1 q'.beginService.1 := by
  obtain ⟨rounds, rfl, hlapsed⟩ := h
  cases hpkts : q.packets with
  | nil =>
    rw [beginService_of_nil hpkts, beginService_of_nil (q := q.withRounds rounds) hpkts]
    exact ⟨rounds, rfl, hlapsed⟩
  | cons e rest =>
    rw [beginService_of_cons hpkts, beginService_of_cons (q := q.withRounds rounds) hpkts]
    refine ⟨rounds, rfl, fun f => (hlapsed f).mono ?_ fun x hx _ => ?_⟩
    · exact hround e (hpkts ▸ List.mem_cons_self)
    · rw [hpkts]
      exact List.mem_cons_of_mem _ hx

theorem alike_forgetServed (h : Alike q q') (flow : Nat) :
    Alike (q.forgetServed flow) (q'.forgetServed flow) := by
  obtain ⟨rounds, rfl, hlapsed⟩ := h
  have hn : (q.withRounds rounds).nPacketsOf flow = q.nPacketsOf flow := rfl
  simp only [forgetServed, hn]
  split_ifs
  · -- the flow has no finish round any more, in either
    refine ⟨Function.update rounds flow none, rfl, fun f => ?_⟩
    show Lapsed _ f (Function.update q.flowRound flow none f) _
    by_cases hf : f = flow
    · subst hf
      rw [Function.update_self, Function.update_self]
      exact Or.inl rfl
    · rw [Function.update_of_ne hf, Function.update_of_ne hf]
      exact (hlapsed f).mono le_rfl fun e he _ => he
  · exact ⟨rounds, rfl, fun f => (hlapsed f).mono le_rfl fun e he _ => he⟩

theorem finishService_of_some {n : Nat} {p : Packet} (hp : q.pending = n + 1)
    (hc : q.currentPkt = some p) :
    q.finishService = some ({ q.forgetServed p.flow with
      queuesize := Word.sub 64 q.queuesize p.size
      currentPkt := none
      pending := n }, applyEcnMark q.bitrate q.queuesize p) := by
  simp only [finishService, hp, hc]

theorem alike_finishService (h : Alike q q') :
    (q.finishService = none ∧ q'.finishService = none) ∨
      ∃ r r' : FairQueue × Packet, q.finishService = some r ∧ q'.finishService = some r' ∧
        Alike r.1 r'.1 ∧ r'.2 = r.2 := by
  have hforget := alike_forgetServed h
  obtain ⟨rounds, rfl, -⟩ := h
  have hpend : (q.withRounds rounds).pending = q.pending := rfl
  have hcur : (q.withRounds rounds).currentPkt = q.currentPkt := rfl
  cases hp : q.pending with
  | zero => exact Or.inl (by simp [finishService, hp, hpend])
  | succ n =>
    cases hc : q.currentPkt with
    | none => exact Or.inl (by simp [finishService, hp, hpend, hc, hcur])
    | some p =>
      obtain ⟨rounds', heq, hlapsed⟩ := hforget p.flow
      refine Or.inr ⟨_, _, finishService_of_some hp hc,
        finishService_of_some (q := q.withRounds rounds) hp hc, ⟨rounds', ?_, fun f => ?_⟩, rfl⟩
      · rw [heq]
        rfl
      · exact (hlapsed f).mono le_rfl fun e he _ => he

/-- A handler call on queues that are alike. -/
theorem alike_handle {taken : List Packet} (hs : Solvent q) (h : Alike q q') {a : Act}
    (hfits : StepFits ⟨q, taken⟩ a) :
    q'.seen a = q.seen a ∧
      ((q.handle a = none ∧ q'.handle a = none) ∨
        ∃ r r', q.handle a = some r ∧ q'.handle a = some r' ∧ Solvent r.1 ∧ Alike r.1 r'.1) := by
  cases a with
  | arrive pkt =>
    have hpkt : q.Fits pkt := hfits
    obtain ⟨hstore, hdropped⟩ := alike_store h pkt
    have hempty : q'.wasEmpty = q.wasEmpty := by
      obtain ⟨rounds, rfl, -⟩ := h
      rfl
    refine ⟨?_, Or.inr ⟨_, _, rfl, rfl, (hs.receivePacket hpkt).1, ?_⟩⟩
    · simp only [seen, hempty, hstore.packets, hdropped]
    · simp only [receivePacket, hempty]
      split_ifs
      · exact alike_beginService hstore (ledger_store hs.ledger hs.fits hpkt).1.ge_round
      · exact hstore
  | complete =>
    rcases alike_finishService h with ⟨hnone, hnone'⟩ | ⟨r, r', hr, hr', halike, hsame⟩
    · refine ⟨by simp only [seen, hnone, hnone'], Or.inl ?_⟩
      simp only [handle, completeService, hnone, hnone', Option.map_none, and_self]
    · refine ⟨?_, Or.inr ⟨r.1.beginService, r'.1.beginService, ?_, ?_, ?_, ?_⟩⟩
      · simp only [seen, hr, hr', Option.map_some, halike.packets, hsame]
      · simp only [handle, completeService, hr, Option.map_some]
      · simp only [handle, completeService, hr', Option.map_some]
      · exact (hs.completeService (by simp only [completeService, hr, Option.map_some])).1
      · exact alike_beginService halike
          (@ledger_finishService q r.1 r.2 hs.ledger hr).1.ge_round

/-- Queues that are alike cannot be told apart. -/
theorem trace_alike {taken : List Packet} (as : List Act) (hs : Solvent q) (h : Alike q q')
    (hfits : system.Along StepFits ⟨q, taken⟩ as) : q'.trace as = q.trace as := by
  induction as generalizing q q' taken with
  | nil => rfl
  | cons a as ih =>
    have ha : StepFits ⟨q, taken⟩ a := by
      cases a with
      | arrive pkt => exact (hfits _ rfl).1
      | complete => trivial
    obtain ⟨hseen, hhandle⟩ := alike_handle hs h ha
    simp only [trace, hseen]
    rcases hhandle with ⟨hnone, hnone'⟩ | ⟨r, r', hr, hr', hsolvent, halike⟩
    · rw [hnone, hnone']
    · have hstep : system.step ⟨q, taken⟩ a = some ⟨r.1, taken ++ r.2⟩ := by
        simp only [system, hr, Option.map_some]
      rw [hr, hr', Option.bind_some, Option.bind_some, ih hsolvent halike (hfits _ hstep).2]

/-- A loop that drops nothing does nothing. -/
theorem dropOverflow_of_nil (fuel : Nat) (q : FairQueue) (h : (dropOverflow fuel q).2 = []) :
    (dropOverflow fuel q).1 = q := by
  induction fuel generalizing q with
  | zero => rfl
  | succ fuel ih =>
    simp only [dropOverflow] at h ⊢
    split_ifs at h ⊢
    · obtain ⟨hdropped, hrest⟩ := List.append_eq_nil_iff.mp h
      rcases List.eq_nil_or_concat q.packets with hnil | ⟨l, ⟨tag, p⟩, hcat⟩
      · rw [dropTail_of_nil hnil] at hrest ⊢
        exact ih q hrest
      · rw [List.concat_eq_append] at hcat
        rw [(dropTail_of_concat_bytes hcat).2.2.2] at hdropped
        cases hdropped
    · rfl

/-- When an arrival has its own packet dropped, and no other, that packet was the last one,
    and the loop made one round. -/
theorem store_of_dropped (hs : Solvent q) (hfits : q.Fits pkt)
    (hdrop : (q.store pkt).2 = [pkt]) :
    (q.enqueue pkt).packets = q.packets ++ [(q.finishRound pkt, pkt)] ∧
      (q.store pkt).1 = (q.enqueue pkt).dropTail.1 ∧ q.maxsize < q.queuesize + pkt.size := by
  have hlen : (q.enqueue pkt).packets.length = q.packets.length + 1 :=
    (perm_insertByKey _ _).length_eq
  simp only [store, hlen, dropOverflow] at hdrop ⊢
  have hover : (q.enqueue pkt).maxsize < (q.enqueue pkt).queuesize := by
    by_contra hfits
    rw [if_neg hfits] at hdrop
    cases hdrop
  have hsize : q.maxsize < q.queuesize + pkt.size := by
    rw [← Word.add_of_lt hfits.bytes]
    exact hover
  rw [if_pos hover] at hdrop ⊢
  rcases List.eq_nil_or_concat (q.enqueue pkt).packets with hnil | ⟨l, ⟨tag, p⟩, hcat⟩
  · rw [hnil] at hlen
    cases hlen
  rw [List.concat_eq_append] at hcat
  rw [(dropTail_of_concat_bytes hcat).2.2.2] at hdrop
  obtain ⟨hp, hrest⟩ := List.cons_eq_cons.mp (by simpa using hdrop)
  subst hp
  have hfront : insertByKey comparedBy (q.finishRound p, p) q.packets = l ++ [(tag, p)] := hcat
  refine ⟨?_, dropOverflow_of_nil _ _ hrest, hsize⟩
  rcases getLast?_insertByKey (x := (q.finishRound p, p)) hs.ledger.sorted with
    hlast | ⟨y, hy, hkey, hlast⟩
  · exact hlast
  · -- a packet of its flow cannot be behind it
    rw [hfront, List.getLast?_concat] at hlast
    have hyp : y = (tag, p) := (Option.some.inj hlast).symm
    have hroom := hs.fits
    have hpos : 1 ≤ y.2.size := by
      rw [hyp]
      show 1 ≤ p.size
      omega
    have hle := @Ledger.le_finishRound q p hs.ledger hfits.toRoundFits y hy (by rw [hyp]) hpos
    rw [hyp] at hle hkey
    have hle' : tag + p.size ≤ q.finishRound p := hle
    rcases Prod.Lex.toLex_lt_toLex.mp hkey with hlt | ⟨-, hid⟩
    · have hlt' : q.finishRound p < tag := hlt
      omega
    · exact absurd hid (lt_irrefl p.id)

theorem eq_withRounds {rounds : Nat → Option Nat} (hbitrate : q'.bitrate = q.bitrate)
    (hmaxsize : q'.maxsize = q.maxsize) (hbytes : q'.queuesize = q.queuesize)
    (hpackets : q'.packets = q.packets) (hcount : q'.nPackets = q.nPackets)
    (hround : q'.roundNumber = q.roundNumber) (hcurrent : q'.currentPkt = q.currentPkt)
    (hpending : q'.pending = q.pending) (hrounds : q'.flowRound = rounds) :
    q' = q.withRounds rounds := by
  cases q'
  cases hbitrate
  cases hmaxsize
  cases hbytes
  cases hpackets
  cases hcount
  cases hround
  cases hcurrent
  cases hpending
  cases hrounds
  rfl

/-- The finish round that a dropped arrival leaves. -/
theorem Ledger.lapsed_restored (h : Ledger q) (hfits : q.RoundFits pkt)
    (hcount : q.count pkt.flow ≠ 0) :
    Lapsed q pkt.flow (q.flowRound pkt.flow)
      (some (Word.sub 64 (q.finishRound pkt) pkt.size)) := by
  have hsome : q.flowRound pkt.flow ≠ none := fun hnone =>
    hcount ((h.flowRound pkt.flow).mp hnone)
  obtain ⟨r, hr⟩ := Option.ne_none_iff_exists'.mp hsome
  have htag : q.baseRound pkt = if q.roundNumber < r then r else q.roundNumber := by
    simp only [baseRound, hr]
  rw [hr, finishRound, Word.sub_add ((Nat.le_add_right _ _).trans_lt hfits.tag), htag]
  rcases lt_trichotomy q.roundNumber r with hlt | heq | hgt
  · rw [if_pos hlt]
    exact Or.inl rfl
  · rw [if_neg heq.not_lt, heq]
    exact Or.inl rfl
  · -- the last tag is behind the round number, so what waits has no size
    rw [if_neg hgt.not_gt]
    refine Or.inr ⟨⟨r, q.roundNumber, rfl, rfl, hgt.le, le_rfl⟩, fun e he hflow => ?_⟩
    by_contra hsize
    have hle := h.le_flowRound e he (by omega) r (hflow ▸ hr)
    have hge := h.ge_round e he
    omega

theorem alike_of_dropped (hs : Solvent q) (hfits : q.Fits pkt)
    (hdrop : (q.store pkt).2 = [pkt]) : Alike q (q.receivePacket pkt).1 := by
  obtain ⟨hcat, hstore, -⟩ := store_of_dropped hs hfits hdrop
  obtain ⟨hpkts, hround, hpend, hcur, hnp, hfr⟩ := dropTail_of_concat hcat
  obtain ⟨hbytes, hmax, hrate, -⟩ := dropTail_of_concat_bytes hcat
  have hcount : (q.enqueue pkt).nPacketsOf pkt.flow = q.count pkt.flow + 1 := by
    rw [(ledger_enqueue hs.ledger hfits).nPacketsOf, count_enqueue, if_pos rfl]
  -- but for the finish round of the flow all is as it was
  have hsame : (q.enqueue pkt).dropTail.1 = q.withRounds (Function.update q.flowRound pkt.flow
      (if q.count pkt.flow = 0 then none
        else some (Word.sub 64 (q.finishRound pkt) pkt.size))) := by
    refine eq_withRounds hrate hmax ?_ hpkts ?_ hround hcur hpend ?_
    · rw [hbytes]
      exact Word.sub_add hs.ledger.words.queuesize
    · have hlt : q.count pkt.flow + 1 < 2 ^ 32 := by
        rw [← hs.ledger.nPacketsOf]
        exact hfits.count
      rw [hnp, hcount, Word.sub_of_le (Nat.le_add_left 1 _) hlt]
      simp only [Nat.add_eq_right, Nat.add_sub_cancel]
      rw [← hs.ledger.nPackets]
      show Function.update (Function.update q.nPackets pkt.flow _) pkt.flow _ = _
      rw [Function.update_idem, Function.update_eq_self]
    · rw [hfr, hcount]
      simp only [Nat.add_eq_right]
      show Function.update (Function.update q.flowRound pkt.flow _) pkt.flow
        (if _ then none
          else some (Word.sub 64 ((Function.update q.flowRound pkt.flow _ pkt.flow).getD 0) _)) = _
      rw [Function.update_idem, Function.update_self, Option.getD_some]
  have halike : Alike q (q.store pkt).1 := by
    refine ⟨_, hstore.trans hsame, fun f => ?_⟩
    by_cases hf : f = pkt.flow
    · subst hf
      rw [Function.update_self]
      split_ifs with h0
      · exact Or.inl ((hs.ledger.flowRound pkt.flow).mpr h0)
      · exact hs.ledger.lapsed_restored hfits.toRoundFits h0
    · rw [Function.update_of_ne hf]
      exact Or.inl rfl
  simp only [receivePacket]
  split_ifs with hempty
  · -- an empty queue stays empty
    simp only [wasEmpty, Bool.and_eq_true, List.isEmpty_iff] at hempty
    rw [beginService_of_nil (halike.packets.trans hempty.2)]
    exact halike
  · exact halike

/-- An arrival that has its own packet dropped, and no other, leaves no trace while no sum
    wraps: whatever comes later, the same packets are served with the same tags and the same
    packets are dropped as if it had never been made. -/
theorem drop_no_trace (bitrate maxsize : Nat) (uninit : Option Packet) (before : List Act)
    (s : State) (pkt : Packet) (after : List Act)
    (hbefore : system.Along StepFits (init bitrate maxsize uninit) before)
    (hrun : system.run (init bitrate maxsize uninit) before = some s) (hfits : s.q.Fits pkt)
    (hafter : system.Along StepFits s after) (hdrop : (s.q.store pkt).2 = [pkt]) :
    (s.q.receivePacket pkt).1.trace after = s.q.trace after :=
  trace_alike after (ledger_of_run hbefore hrun)
    (alike_of_dropped (ledger_of_run hbefore hrun) hfits hdrop) hafter

/-- The fourth packet does not fit, and two services and an arrival do not tell. -/
theorem drop_no_trace_fourth :
    ∃ s, system.run (init 1000 400 none)
        [.arrive ⟨1, 100, 1, false⟩, .arrive ⟨1, 150, 2, false⟩, .arrive ⟨2, 150, 1, false⟩] =
          some s ∧
      (s.q.receivePacket ⟨1, 120, 3, false⟩).1.trace
          [.complete, .arrive ⟨1, 100, 4, false⟩, .complete] =
        s.q.trace [.complete, .arrive ⟨1, 100, 4, false⟩, .complete] := by
  refine ⟨(system.run _ _).get (by decide +kernel), (Option.some_get _).symm,
    drop_no_trace 1000 400 none _ _ ⟨1, 120, 3, false⟩ _ (by decide +kernel)
      (Option.some_get _).symm (by decide +kernel) (by decide +kernel) ?_⟩
  decide +kernel

/-- The tags end while flow 1 has two packets waiting, the second with a tag that wrapped.  A
    third one is dropped, and puts the finish round of the flow back to the end of the range:
    the packet after it is served in another place. -/
theorem dropped_seen :
    ¬ ∀ (bitrate maxsize : Nat) (uninit : Option Packet) (before : List Act) (s : State)
        (pkt : Packet) (after : List Act),
      system.run (init bitrate maxsize uninit) before = some s →
      (s.q.store pkt).2 = [pkt] →
      (s.q.receivePacket pkt).1.trace after = s.q.trace after := by
  intro hall
  let s := (system.run ⟨aged (2 ^ 32) (2 ^ 34 - 3), List.replicate (2 ^ 34 - 3 + 1) (block 0 0)⟩
    [.arrive (block 1 1), .arrive (block 1 2)]).get (by decide +kernel)
  have hrun : system.run (init 10000000000 (2 ^ 32) none)
      (ageing (2 ^ 34 - 3) ++ [.arrive (block 1 1), .arrive (block 1 2)]) = some s :=
    Lts.run_trans (run_ageing (by decide) (2 ^ 34 - 3) (by decide)) (Option.some_get _).symm
  have hsame := hall _ _ _ _ s (block 1 3) [.complete, .arrive (block 1 4), .complete] hrun
    (by decide +kernel)
  have htaken := congrArg (fun l => l.map (List.map Seen.taken)) hsame
  exact absurd htaken (by decide +kernel)

end FairQueue
end Htsim
end DatacenterNetworking
