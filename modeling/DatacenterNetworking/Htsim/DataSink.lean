/-
  DatacenterNetworking.Htsim.DataSink

  The reassembly buffer of every sink (`datasink.cpp`): `_cumulative_ack` and
  the ordered list `_received` of segments beyond it.

  `processDataPacket` counts bytes in `Nat`, as the flow models do.
  `processDataPacket64` does the sums of the code, in 64 bits; the two agree until
  the bytes in order reach `2 ^ 64` (`processAll64_eq`).

  Two levels of results:

    * `Sound` — for any packets whatever: every byte up to `_cumulative_ack`
      has been received.  The flow models use it.
    * `Reassembled` — for packets on the grid of one segment size `S`: the
      state is determined by the set of segments received so far
      (`reassembled_unique`).
-/

import DatacenterNetworking.Htsim.DataPacket
import DatacenterNetworking.Lib.Word
import Mathlib.Data.List.Sort

namespace DatacenterNetworking
namespace Htsim

/-- `DataSink`: entries of `_received` are pairs of sequence number and size. -/
@[ext]
structure DataSink where
  cumulativeAck : Nat
  received : List (Nat × Nat)
  deriving DecidableEq, Repr

namespace DataSink

/-- The sink as constructed. -/
def new : DataSink := { cumulativeAck := 0, received := [] }

/-- The `while` loop of `processDataPacket`: acknowledge the buffered segments that have
    become contiguous.  The byte count is a natural number. -/
def drain (cumulativeAck : Nat) : List (Nat × Nat) → DataSink
  | [] => { cumulativeAck, received := [] }
  | packet :: rest =>
      if cumulativeAck + 1 = packet.1 then drain (cumulativeAck + packet.2) rest
      else { cumulativeAck, received := packet :: rest }

/-- The `for` loop of `processDataPacket`: insert in the right position, unless the
    sequence number is already there. -/
def insertReceived (seqno size : Nat) : List (Nat × Nat) → List (Nat × Nat)
  | [] => []
  | i :: rest =>
      if seqno = i.1 then i :: rest
      else if seqno < i.1 then (seqno, size) :: i :: rest
      else i :: insertReceived seqno size rest

/-- The out-of-order branch of `processDataPacket`. -/
def bufferSegment (seqno size : Nat) (received : List (Nat × Nat)) : List (Nat × Nat) :=
  match received.getLast? with
  | none => received ++ [(seqno, size)]
  | some back =>
      if back.1 < seqno then received ++ [(seqno, size)]
      else insertReceived seqno size received

/-- `DataSink::processDataPacket`, with the byte count a natural number. -/
def processDataPacket (d : DataSink) (pkt : DataPacket) : DataSink :=
  if pkt.seqno = d.cumulativeAck + 1 then
    drain (pkt.seqno + pkt.size - 1) d.received
  else if pkt.seqno ≤ d.cumulativeAck then d
  else { d with received := bufferSegment pkt.seqno pkt.size d.received }

/-- A sequence of packets handled one after the other. -/
def processAll (d : DataSink) (pkts : List DataPacket) : DataSink :=
  pkts.foldl processDataPacket d

@[simp] theorem processAll_nil (d : DataSink) : d.processAll [] = d := rfl

@[simp] theorem processAll_cons (d : DataSink) (pkt : DataPacket) (pkts : List DataPacket) :
    d.processAll (pkt :: pkts) = (d.processDataPacket pkt).processAll pkts := rfl

/-- The `while` loop in 64 bits. -/
def drain64 (cumulativeAck : Nat) : List (Nat × Nat) → DataSink
  | [] => { cumulativeAck, received := [] }
  | packet :: rest =>
      if Word.add 64 cumulativeAck 1 = packet.1 then
        drain64 (Word.add 64 cumulativeAck packet.2) rest
      else { cumulativeAck, received := packet :: rest }

/-- `DataSink::processDataPacket`. -/
def processDataPacket64 (d : DataSink) (pkt : DataPacket) : DataSink :=
  if pkt.seqno = Word.add 64 d.cumulativeAck 1 then
    drain64 (Word.sub 64 (Word.add 64 pkt.seqno pkt.size) 1) d.received
  else if pkt.seqno ≤ d.cumulativeAck then d
  else { d with received := bufferSegment pkt.seqno pkt.size d.received }

/-- A sequence of packets handled one after the other. -/
def processAll64 (d : DataSink) (pkts : List DataPacket) : DataSink :=
  pkts.foldl processDataPacket64 d

/-! ## The buffer as a list -/

theorem mem_insertReceived {seqno size : Nat} {e : Nat × Nat} :
    ∀ {l : List (Nat × Nat)}, e ∈ insertReceived seqno size l → e = (seqno, size) ∨ e ∈ l
  | [], h => by cases h
  | i :: rest, h => by
    unfold insertReceived at h
    split_ifs at h with heq hlt
    · exact Or.inr h
    · rcases List.mem_cons.mp h with h | h
      · exact Or.inl h
      · exact Or.inr h
    · rcases List.mem_cons.mp h with h | h
      · exact Or.inr (h ▸ List.mem_cons_self)
      · rcases mem_insertReceived h with h | h
        · exact Or.inl h
        · exact Or.inr (List.mem_cons_of_mem _ h)

/-- Only the new segment enters the buffer. -/
theorem mem_bufferSegment {seqno size : Nat} {e : Nat × Nat} {l : List (Nat × Nat)}
    (h : e ∈ bufferSegment seqno size l) : e = (seqno, size) ∨ e ∈ l := by
  unfold bufferSegment at h
  have happ : e ∈ l ++ [(seqno, size)] → e = (seqno, size) ∨ e ∈ l := by
    intro h
    rcases List.mem_append.mp h with h | h
    · exact Or.inr h
    · exact Or.inl (List.mem_singleton.mp h)
  split at h
  · exact happ h
  · split_ifs at h
    · exact happ h
    · exact mem_insertReceived h

/-- Draining keeps only buffered segments. -/
theorem mem_drain {e : Nat × Nat} :
    ∀ {c : Nat} {l : List (Nat × Nat)}, e ∈ (drain c l).received → e ∈ l
  | _, [], h => by cases h
  | c, i :: rest, h => by
    unfold drain at h
    split_ifs at h with heq
    · exact List.mem_cons_of_mem _ (mem_drain h)
    · exact h

/-- The cumulative ack does not go back. -/
theorem cumulativeAck_le_drain (l : List (Nat × Nat)) :
    ∀ c, c ≤ (drain c l).cumulativeAck := by
  induction l with
  | nil => exact fun c => le_rfl
  | cons packet rest ih =>
    intro c
    simp only [drain]
    split_ifs
    · exact (Nat.le_add_right c packet.2).trans (ih _)
    · exact le_rfl

theorem cumulativeAck_le (d : DataSink) (p : DataPacket) :
    d.cumulativeAck ≤ (d.processDataPacket p).cumulativeAck := by
  simp only [processDataPacket]
  split_ifs with hnext
  · exact (show d.cumulativeAck ≤ p.seqno + p.size - 1 by omega).trans
      (cumulativeAck_le_drain _ _)
  · exact le_rfl
  · exact le_rfl

theorem cumulativeAck_le_processAll (d : DataSink) (pkts : List DataPacket) :
    d.cumulativeAck ≤ (d.processAll pkts).cumulativeAck := by
  induction pkts generalizing d with
  | nil => exact le_rfl
  | cons p pkts ih => exact (cumulativeAck_le d p).trans (ih _)

/-! ## Sixty-four bits -/

/-- A sequence number of the code: it is not 0, and a word. -/
def Numbered (seqno : Nat) : Prop := 1 ≤ seqno ∧ seqno < 2 ^ 64

/-- The next number expected is that of a packet in 64 bits exactly if it is in `Nat`. -/
theorem next_eq_iff {c seqno : Nat} (hc : c < 2 ^ 64) (hseq : Numbered seqno) :
    Word.add 64 c 1 = seqno ↔ c + 1 = seqno := by
  obtain ⟨hpos, hlt⟩ := hseq
  by_cases hlast : c + 1 < 2 ^ 64
  · rw [Word.add_of_lt hlast]
  · -- the count is at its end, and the sum is 0
    have hzero : Word.add 64 c 1 = 0 := by
      rw [Word.add, show c + 1 = 2 ^ 64 by omega, Nat.mod_self]
    rw [hzero]
    omega

theorem drain64_eq {l : List (Nat × Nat)} (hl : ∀ e ∈ l, Numbered e.1) :
    ∀ {c : Nat}, (drain c l).cumulativeAck < 2 ^ 64 → drain64 c l = drain c l := by
  induction l with
  | nil => exact fun _ => rfl
  | cons packet rest ih =>
    intro c hlt
    have hc := (cumulativeAck_le_drain (packet :: rest) c).trans_lt hlt
    have hiff := next_eq_iff hc (hl packet List.mem_cons_self)
    simp only [drain, drain64, hiff] at hlt ⊢
    split_ifs at hlt ⊢
    · have hsum := (cumulativeAck_le_drain rest (c + packet.2)).trans_lt hlt
      rw [Word.add_of_lt hsum]
      exact ih (fun e he => hl e (List.mem_cons_of_mem _ he)) hlt
    · rfl

/-- The sink in 64 bits is the one in `Nat` while the cumulative ack stays below `2 ^ 64`. -/
theorem processDataPacket64_eq {d : DataSink} {pkt : DataPacket}
    (hd : ∀ e ∈ d.received, Numbered e.1) (hpkt : Numbered pkt.seqno)
    (hlt : (d.processDataPacket pkt).cumulativeAck < 2 ^ 64) :
    d.processDataPacket64 pkt = d.processDataPacket pkt := by
  have hc := (cumulativeAck_le d pkt).trans_lt hlt
  have hiff := (eq_comm.trans (next_eq_iff hc hpkt)).trans eq_comm
  simp only [processDataPacket, processDataPacket64, hiff] at hlt ⊢
  split_ifs at hlt ⊢
  · have hsum := (cumulativeAck_le_drain _ _).trans_lt hlt
    obtain ⟨hpos, -⟩ := hpkt
    rw [Word.add, Word.sub_mod (by omega), Nat.mod_eq_of_lt hsum]
    exact drain64_eq hd hlt
  · rfl
  · rfl

theorem numbered_received {d : DataSink} {pkt : DataPacket}
    (hd : ∀ e ∈ d.received, Numbered e.1) (hpkt : Numbered pkt.seqno) :
    ∀ e ∈ (d.processDataPacket pkt).received, Numbered e.1 := by
  intro e he
  simp only [processDataPacket] at he
  split_ifs at he
  · exact hd e (mem_drain he)
  · exact hd e he
  · rcases mem_bufferSegment he with rfl | he
    · exact hpkt
    · exact hd e he

theorem processAll64_eq {d : DataSink} {pkts : List DataPacket}
    (hd : ∀ e ∈ d.received, Numbered e.1) (hpkts : ∀ p ∈ pkts, Numbered p.seqno)
    (hlt : (d.processAll pkts).cumulativeAck < 2 ^ 64) :
    d.processAll64 pkts = d.processAll pkts := by
  induction pkts generalizing d with
  | nil => rfl
  | cons pkt pkts ih =>
    have hpkt := hpkts pkt List.mem_cons_self
    have hstep := processDataPacket64_eq hd hpkt
      ((cumulativeAck_le_processAll (d.processDataPacket pkt) pkts).trans_lt hlt)
    show (d.processDataPacket64 pkt).processAll64 pkts = _
    rw [hstep]
    exact ih (numbered_received hd hpkt) (fun p hp => hpkts p (List.mem_cons_of_mem _ hp)) hlt

theorem cumulativeAck_drain64_lt (l : List (Nat × Nat)) :
    ∀ {c : Nat}, c < 2 ^ 64 → (drain64 c l).cumulativeAck < 2 ^ 64 := by
  induction l with
  | nil => exact fun hc => hc
  | cons packet rest ih =>
    intro c hc
    simp only [drain64]
    split_ifs
    · exact ih Word.add_lt
    · exact hc

/-- The cumulative ack is a word, whatever arrives. -/
theorem cumulativeAck_processAll64_lt {d : DataSink} (pkts : List DataPacket)
    (hd : d.cumulativeAck < 2 ^ 64) : (d.processAll64 pkts).cumulativeAck < 2 ^ 64 := by
  induction pkts generalizing d with
  | nil => exact hd
  | cons pkt pkts ih =>
    refine ih (?_ : (d.processDataPacket64 pkt).cumulativeAck < 2 ^ 64)
    simp only [processDataPacket64]
    split_ifs
    · exact cumulativeAck_drain64_lt _ Word.sub_lt
    · exact hd
    · exact hd

/-! ## Every acknowledged byte was received -/

/-- What holds of a sink that has been handed the packets `log`. -/
structure Sound (log : List DataPacket) (d : DataSink) : Prop where
  /-- every byte up to the cumulative ack was carried by some packet -/
  covered : ∀ b, 1 ≤ b → b ≤ d.cumulativeAck → Covers log b
  /-- every buffered segment is one that was received -/
  buffered : ∀ e ∈ d.received, ∃ p ∈ log, p.seqno = e.1 ∧ p.size = e.2

theorem sound_new : Sound [] new := by
  constructor
  · intro b h1 h2
    have h2 : b ≤ 0 := h2
    omega
  · intro e he
    cases he

theorem Sound.mono {log log' : List DataPacket} {d : DataSink} (h : Sound log d)
    (hsub : ∀ p ∈ log, p ∈ log') : Sound log' d := by
  constructor
  · intro b h1 h2
    exact (h.covered b h1 h2).mono hsub
  · intro e he
    obtain ⟨p, hp, h1, h2⟩ := h.buffered e he
    exact ⟨p, hsub p hp, h1, h2⟩

/-- The drain loop acknowledges only bytes of buffered segments. -/
theorem sound_drain {log : List DataPacket} :
    ∀ {c : Nat} {l : List (Nat × Nat)}, Sound log { cumulativeAck := c, received := l } →
      Sound log (drain c l)
  | _, [], h => h
  | c, i :: rest, h => by
    simp only [drain]
    split_ifs with heq
    · apply sound_drain
      constructor
      · intro b h1 h2
        by_cases hb : b ≤ c
        · exact h.covered b h1 hb
        · -- a byte of the segment that was next in the buffer
          obtain ⟨p, hp, hseq, hsize⟩ := h.buffered i List.mem_cons_self
          have h2 : b ≤ c + i.2 := h2
          exact ⟨p, hp, by omega, by omega⟩
      · intro e he
        exact h.buffered e (List.mem_cons_of_mem _ he)
    · exact h

/-- Handling a packet keeps the sink sound for the log extended by that packet. -/
theorem sound_processDataPacket {log : List DataPacket} {d : DataSink} {pkt : DataPacket}
    (h : Sound log d) : Sound (log ++ [pkt]) (d.processDataPacket pkt) := by
  have hmono : Sound (log ++ [pkt]) d := h.mono fun p hp => List.mem_append_left _ hp
  have hpkt : pkt ∈ log ++ [pkt] := List.mem_append_right _ (List.mem_singleton_self _)
  simp only [processDataPacket]
  split_ifs with heq hle
  · apply sound_drain
    constructor
    · intro b h1 h2
      have h2 : b ≤ pkt.seqno + pkt.size - 1 := h2
      by_cases hb : b ≤ d.cumulativeAck
      · exact hmono.covered b h1 hb
      · -- a byte of the packet itself
        exact ⟨pkt, hpkt, by omega, by omega⟩
    · exact hmono.buffered
  · exact hmono
  · refine ⟨hmono.covered, fun e he => ?_⟩
    rcases mem_bufferSegment he with he | he
    · exact ⟨pkt, hpkt, by rw [he], by rw [he]⟩
    · exact hmono.buffered e he

/-! ## Segments of one size -/

/-- The state after the segments with indices in `R` have been received: segment `k`
    carries the `S` bytes from `k * S + 1`, and `n` is the first index missing. -/
structure Reassembled (S : Nat) (R : Nat → Prop) (n : Nat) (d : DataSink) : Prop where
  ack : d.cumulativeAck = n * S
  below : ∀ k, k < n → R k
  gap : ¬ R n
  sorted : d.received.Pairwise fun a b => a.1 < b.1
  mem : ∀ e, e ∈ d.received ↔ ∃ k, R k ∧ n < k ∧ e = (k * S + 1, S)

theorem reassembled_new (S : Nat) : Reassembled S (fun _ => False) 0 new where
  ack := (Nat.zero_mul S).symm
  below := fun _ hk => absurd hk (Nat.not_lt_zero _)
  gap := id
  sorted := List.Pairwise.nil
  mem := fun e => by simp [new]

/-- The received set determines the state: `n` is its least gap, and a strictly
    increasing list is determined by its members. -/
theorem reassembled_unique {S : Nat} {R R' : Nat → Prop} {n n' : Nat} {d d' : DataSink}
    (hR : ∀ k, R k ↔ R' k) (h : Reassembled S R n d) (h' : Reassembled S R' n' d') : d = d' := by
  have hn : n = n' := by
    rcases Nat.lt_trichotomy n n' with hlt | heq | hlt
    · exact absurd ((hR n).mpr (h'.below n hlt)) h.gap
    · exact heq
    · exact absurd ((hR n').mp (h.below n' hlt)) h'.gap
  subst hn
  have hirrefl : Std.Irrefl fun a b : Nat × Nat => a.1 < b.1 := ⟨fun a => Nat.lt_irrefl a.1⟩
  have hanti : Std.Antisymm fun a b : Nat × Nat => a.1 < b.1 :=
    ⟨fun a b hab hba => absurd hab (Nat.lt_asymm hba)⟩
  have hlist : d.received = d'.received := by
    refine h.sorted.eq_of_mem_iff h'.sorted fun e => ?_
    rw [h.mem, h'.mem]
    simp only [hR]
  exact DataSink.ext (h.ack.trans h'.ack.symm) hlist

/-- Distinct segment indices give sequence numbers in the same order. -/
theorem seqno_lt_iff {S : Nat} (hS : 1 ≤ S) {j k : Nat} : j * S + 1 < k * S + 1 ↔ j < k := by
  rw [Nat.add_lt_add_iff_right]
  exact Nat.mul_lt_mul_right hS

theorem seqno_inj {S : Nat} (hS : 1 ≤ S) {j k : Nat} (h : j * S + 1 = k * S + 1) : j = k :=
  Nat.eq_of_mul_eq_mul_right hS (Nat.add_right_cancel h)

/-- The drain loop, started on a buffer that holds exactly the received segments from
    index `m` on, stops at the first index missing. -/
theorem reassembled_drain {S : Nat} (hS : 1 ≤ S) {R : Nat → Prop} :
    ∀ {l : List (Nat × Nat)} {m : Nat}, (∀ k, k < m → R k) →
      l.Pairwise (fun a b => a.1 < b.1) →
      (∀ e, e ∈ l ↔ ∃ k, R k ∧ m ≤ k ∧ e = (k * S + 1, S)) →
      ∃ n, Reassembled S R n (drain (m * S) l)
  -- nothing is buffered, so nothing at or past `m` was received
  | [], m, hbelow, _, hmem => by
    have hnone : ∀ k, R k → ¬ m ≤ k := by
      intro k hk hmk
      exact absurd ((hmem _).mpr ⟨k, hk, hmk, rfl⟩) (List.not_mem_nil)
    refine ⟨m, rfl, hbelow, fun hm => hnone m hm le_rfl, List.Pairwise.nil, fun e => ?_⟩
    constructor
    · intro he
      cases he
    · rintro ⟨k, hk, hlt, -⟩
      exact absurd hlt.le (hnone k hk)
  | i :: rest, m, hbelow, hsorted, hmem => by
    obtain ⟨k₀, hk₀, hmk₀, rfl⟩ := (hmem i).mp List.mem_cons_self
    obtain ⟨hfirst, hrest⟩ := List.pairwise_cons.mp hsorted
    simp only [drain]
    split_ifs with heq
    · -- the front segment is the next one: segment `m`
      have hkm : k₀ = m := (seqno_inj hS heq).symm
      subst hkm
      have hnext : k₀ * S + S = (k₀ + 1) * S := (Nat.succ_mul k₀ S).symm
      show ∃ n, Reassembled S R n (drain (k₀ * S + S) rest)
      rw [hnext]
      refine reassembled_drain hS ?_ hrest fun e => ?_
      · intro k hk
        rcases Nat.lt_succ_iff_lt_or_eq.mp hk with hk | rfl
        · exact hbelow k hk
        · exact hk₀
      · constructor
        · intro he
          obtain ⟨k, hk, hmk, rfl⟩ := (hmem e).mp (List.mem_cons_of_mem _ he)
          exact ⟨k, hk, (seqno_lt_iff hS).mp (hfirst _ he), rfl⟩
        · rintro ⟨k, hk, hlt, rfl⟩
          rcases List.mem_cons.mp ((hmem _).mpr ⟨k, hk, by omega, rfl⟩) with he | he
          · have hkk := seqno_inj hS (congrArg Prod.fst he)
            omega
          · exact he
    · -- the front segment leaves a gap, and it is the smallest one buffered
      have hgap : ¬ R m := by
        intro hm
        rcases List.mem_cons.mp ((hmem _).mpr ⟨m, hm, le_rfl, rfl⟩) with he | he
        · exact heq (congrArg Prod.fst he)
        · have hlt := (seqno_lt_iff hS).mp (hfirst _ he)
          omega
      refine ⟨m, rfl, hbelow, hgap, hsorted, fun e => ?_⟩
      rw [hmem]
      constructor
      · rintro ⟨k, hk, hmk, rfl⟩
        refine ⟨k, hk, lt_of_le_of_ne hmk ?_, rfl⟩
        rintro rfl
        exact hgap hk
      · rintro ⟨k, hk, hlt, rfl⟩
        exact ⟨k, hk, hlt.le, rfl⟩

/-- Insertion before some larger entry keeps the order and adds the segment unless its
    sequence number is present. -/
theorem insertReceived_spec {seqno size : Nat} :
    ∀ {l : List (Nat × Nat)}, l.Pairwise (fun a b => a.1 < b.1) → (∃ x ∈ l, seqno ≤ x.1) →
      (insertReceived seqno size l).Pairwise (fun a b => a.1 < b.1) ∧
      ∀ e, e ∈ insertReceived seqno size l ↔
        e ∈ l ∨ (e = (seqno, size) ∧ ∀ x ∈ l, x.1 ≠ seqno)
  | [], _, ⟨x, hx, _⟩ => by cases hx
  | i :: rest, hsorted, hex => by
    obtain ⟨hfirst, hrest⟩ := List.pairwise_cons.mp hsorted
    simp only [insertReceived]
    split_ifs with heq hlt
    · -- the sequence number is there already
      refine ⟨hsorted, fun e => ⟨Or.inl, ?_⟩⟩
      rintro (he | ⟨-, hne⟩)
      · exact he
      · exact absurd heq.symm (hne i List.mem_cons_self)
    · -- the segment goes before `i`
      have hall : ∀ x ∈ i :: rest, seqno < x.1 := by
        intro x hx
        rcases List.mem_cons.mp hx with rfl | hx
        · exact hlt
        · exact hlt.trans (hfirst x hx)
      refine ⟨List.pairwise_cons.mpr ⟨fun x hx => hall x hx, hsorted⟩, fun e => ?_⟩
      constructor
      · intro he
        rcases List.mem_cons.mp he with rfl | he
        · exact Or.inr ⟨rfl, fun x hx => (hall x hx).ne'⟩
        · exact Or.inl he
      · rintro (he | ⟨rfl, -⟩)
        · exact List.mem_cons_of_mem _ he
        · exact List.mem_cons_self
    · -- it goes further back
      have hgt : i.1 < seqno := by omega
      have hex' : ∃ x ∈ rest, seqno ≤ x.1 := by
        obtain ⟨x, hx, hle⟩ := hex
        rcases List.mem_cons.mp hx with rfl | hx
        · omega
        · exact ⟨x, hx, hle⟩
      -- `i` stays in front, and the rest takes the segment
      obtain ⟨hs, hm⟩ := @insertReceived_spec seqno size rest hrest hex'
      constructor
      · refine List.pairwise_cons.mpr ⟨fun x hx => ?_, hs⟩
        rcases (hm x).mp hx with hx | ⟨rfl, -⟩
        · exact hfirst x hx
        · exact hgt
      · intro e
        rw [List.mem_cons, hm, List.mem_cons]
        constructor
        · rintro (rfl | he | ⟨rfl, hne⟩)
          · exact Or.inl (Or.inl rfl)
          · exact Or.inl (Or.inr he)
          · refine Or.inr ⟨rfl, fun x hx => ?_⟩
            rcases List.mem_cons.mp hx with rfl | hx
            · exact hgt.ne
            · exact hne x hx
        · rintro ((rfl | he) | ⟨rfl, hne⟩)
          · exact Or.inl rfl
          · exact Or.inr (Or.inl he)
          · exact Or.inr (Or.inr ⟨rfl, fun x hx => hne x (List.mem_cons_of_mem _ hx)⟩)

/-- The out-of-order branch keeps the buffer strictly increasing and adds the segment
    unless its sequence number is present. -/
theorem bufferSegment_spec {seqno size : Nat} {l : List (Nat × Nat)}
    (hsorted : l.Pairwise fun a b => a.1 < b.1) :
    (bufferSegment seqno size l).Pairwise (fun a b => a.1 < b.1) ∧
    ∀ e, e ∈ bufferSegment seqno size l ↔
      e ∈ l ∨ (e = (seqno, size) ∧ ∀ x ∈ l, x.1 ≠ seqno) := by
  have happ : (∀ x ∈ l, x.1 < seqno) →
      (l ++ [(seqno, size)]).Pairwise (fun a b => a.1 < b.1) ∧
      ∀ e, e ∈ l ++ [(seqno, size)] ↔ e ∈ l ∨ (e = (seqno, size) ∧ ∀ x ∈ l, x.1 ≠ seqno) := by
    intro hall
    constructor
    · refine List.pairwise_append.mpr ⟨hsorted, List.pairwise_singleton _ _, ?_⟩
      intro x hx y hy
      rw [List.mem_singleton.mp hy]
      exact hall x hx
    · intro e
      rw [List.mem_append, List.mem_singleton]
      constructor
      · rintro (he | rfl)
        · exact Or.inl he
        · exact Or.inr ⟨rfl, fun x hx => (hall x hx).ne⟩
      · rintro (he | ⟨rfl, -⟩)
        · exact Or.inl he
        · exact Or.inr rfl
  simp only [bufferSegment]
  split
  · next hlast =>
    have hnil : l = [] := List.getLast?_eq_none_iff.mp hlast
    exact happ (by simp [hnil])
  · next back hlast =>
    have hback : back ∈ l := List.mem_of_getLast? hlast
    split_ifs with hlt
    · refine happ fun x hx => ?_
      -- `back` is the last entry of a strictly increasing list
      obtain ⟨init, rfl⟩ := List.getLast?_eq_some_iff.mp hlast
      rcases List.mem_append.mp hx with hx | hx
      · have hxb := (List.pairwise_append.mp hsorted).2.2 x hx back (List.mem_singleton_self _)
        omega
      · rw [List.mem_singleton.mp hx]
        exact hlt
    · exact insertReceived_spec hsorted ⟨back, hback, by omega⟩

/-- **One packet.**  Handling segment `k` turns the state for the set `R` into the state
    for `R` with `k` added. -/
theorem reassembled_processDataPacket {S : Nat} (hS : 1 ≤ S) {R : Nat → Prop} {n k : Nat}
    {d : DataSink} {pkt : DataPacket} (h : Reassembled S R n d)
    (hseq : pkt.seqno = k * S + 1) (hsize : pkt.size = S) :
    ∃ n', Reassembled S (fun j => R j ∨ j = k) n' (d.processDataPacket pkt) := by
  simp only [processDataPacket]
  rw [hseq, hsize, h.ack]
  split_ifs with heq hle
  · -- the expected segment: `k = n`, then the loop drains
    have hkn : k = n := seqno_inj hS heq
    subst hkn
    have hnext : k * S + 1 + S - 1 = (k + 1) * S := by
      rw [Nat.succ_mul]
      omega
    rw [hnext]
    refine reassembled_drain hS ?_ h.sorted fun e => ?_
    · intro j hj
      rcases Nat.lt_succ_iff_lt_or_eq.mp hj with hj | rfl
      · exact Or.inl (h.below j hj)
      · exact Or.inr rfl
    · rw [h.mem]
      constructor
      · rintro ⟨j, hj, hlt, rfl⟩
        exact ⟨j, Or.inl hj, hlt, rfl⟩
      · rintro ⟨j, hj | rfl, hle, rfl⟩
        · exact ⟨j, hj, hle, rfl⟩
        · omega
  · -- a bad retransmit: `k < n`, already received
    have hkn : k < n := by
      by_contra hnk
      have := Nat.mul_le_mul_right S (Nat.not_lt.mp hnk)
      omega
    have hR : ∀ j, R j ↔ (R j ∨ j = k) := by
      intro j
      constructor
      · exact Or.inl
      · rintro (hj | rfl)
        · exact hj
        · exact h.below j hkn
    refine ⟨n, h.ack, fun j hj => (hR j).mp (h.below j hj), fun hn => h.gap ((hR n).mpr hn),
      h.sorted, fun e => ?_⟩
    rw [h.mem]
    simp only [← hR]
  · -- out of order: `n < k`, buffered unless already there
    have hkn : n < k := by
      by_contra hnk
      rcases Nat.lt_or_eq_of_le (Nat.not_lt.mp hnk) with hlt | heqk
      · have := Nat.mul_le_mul_right S (Nat.succ_le_of_lt hlt)
        rw [Nat.succ_mul] at this
        omega
      · rw [heqk] at heq
        exact heq rfl
    obtain ⟨hs, hm⟩ := @bufferSegment_spec (k * S + 1) S d.received h.sorted
    refine ⟨n, rfl, fun j hj => Or.inl (h.below j hj), ?_, hs, fun e => ?_⟩
    · rintro (hn | hn)
      · exact h.gap hn
      · omega
    · show e ∈ bufferSegment (k * S + 1) S d.received ↔ _
      rw [hm, h.mem]
      constructor
      · rintro (⟨j, hj, hlt, rfl⟩ | ⟨rfl, -⟩)
        · exact ⟨j, Or.inl hj, hlt, rfl⟩
        · exact ⟨k, Or.inr rfl, hkn, rfl⟩
      · rintro ⟨j, hj | rfl, hlt, rfl⟩
        · exact Or.inl ⟨j, hj, hlt, rfl⟩
        · by_cases hRj : R j
          · exact Or.inl ⟨j, hRj, hlt, rfl⟩
          · refine Or.inr ⟨rfl, fun x hx hxk => ?_⟩
            obtain ⟨i, hi, -, rfl⟩ := (h.mem x).mp hx
            exact hRj (seqno_inj hS hxk ▸ hi)

/-! ## Whole sequences -/

/-- `pkts` are segments of size `S`: packet `k` starts at byte `k * S + 1`. -/
def OnGrid (S : Nat) (pkts : List DataPacket) : Prop :=
  ∀ p ∈ pkts, ∃ k, p.seqno = k * S + 1 ∧ p.size = S

/-- Segment `k` is among `pkts`. -/
def HasSegment (S : Nat) (pkts : List DataPacket) (k : Nat) : Prop :=
  ∃ p ∈ pkts, p.seqno = k * S + 1

theorem Reassembled.congr {S : Nat} {R R' : Nat → Prop} {n : Nat} {d : DataSink}
    (h : Reassembled S R n d) (hR : ∀ k, R k ↔ R' k) : Reassembled S R' n d := by
  have heq : R = R' := funext fun k => propext (hR k)
  exact heq ▸ h

theorem reassembled_processAll {S : Nat} (hS : 1 ≤ S) {pkts : List DataPacket}
    (hgrid : OnGrid S pkts) {R : Nat → Prop} {n : Nat} {d : DataSink} (h : Reassembled S R n d) :
    ∃ n', Reassembled S (fun k => R k ∨ HasSegment S pkts k) n' (d.processAll pkts) := by
  -- along the packets, each of which adds its own segment to those received
  induction pkts generalizing R n d with
  | nil =>
    refine ⟨n, h.congr fun k => ⟨Or.inl, ?_⟩⟩
    rintro (hk | ⟨p, hp, -⟩)
    · exact hk
    · cases hp
  | cons pkt pkts ih =>
    obtain ⟨k₀, hseq, hsize⟩ := hgrid pkt List.mem_cons_self
    obtain ⟨n₁, h₁⟩ := reassembled_processDataPacket hS h hseq hsize
    obtain ⟨n₂, h₂⟩ := ih (fun p hp => hgrid p (List.mem_cons_of_mem _ hp)) h₁
    refine ⟨n₂, h₂.congr fun k => ?_⟩
    constructor
    · rintro ((hk | rfl) | ⟨p, hp, hpk⟩)
      · exact Or.inl hk
      · exact Or.inr ⟨pkt, List.mem_cons_self, hseq⟩
      · exact Or.inr ⟨p, List.mem_cons_of_mem _ hp, hpk⟩
    · rintro (hk | ⟨p, hp, hpk⟩)
      · exact Or.inl (Or.inl hk)
      · rcases List.mem_cons.mp hp with rfl | hp
        · exact Or.inl (Or.inr (seqno_inj hS (hpk.symm.trans hseq)))
        · exact Or.inr ⟨p, hp, hpk⟩

/-- On the grid, byte `b` is received exactly when its segment is. -/
theorem covers_iff_hasSegment {S : Nat} (hS : 1 ≤ S) {pkts : List DataPacket}
    (hgrid : OnGrid S pkts) {b : Nat} (hb : 1 ≤ b) :
    Covers pkts b ↔ HasSegment S pkts ((b - 1) / S) := by
  constructor
  · rintro ⟨p, hp, hlo, hhi⟩
    obtain ⟨k, hseq, hsize⟩ := hgrid p hp
    refine ⟨p, hp, ?_⟩
    have hk : (b - 1) / S = k := by
      apply Nat.div_eq_of_lt_le
      · omega
      · rw [Nat.succ_mul]
        omega
    rw [hk, hseq]
  · rintro ⟨p, hp, hseq⟩
    obtain ⟨k, -, hsize⟩ := hgrid p hp
    have hdm := Nat.div_add_mod (b - 1) S
    have hlt := Nat.mod_lt (b - 1) hS
    rw [Nat.mul_comm] at hdm
    exact ⟨p, hp, by omega, by omega⟩

/-- Sequences with the same segments have each a packet for every packet of the other. -/
theorem exists_same_segment {pkts pkts' : List DataPacket}
    (hset : ∀ seg, seg ∈ pkts'.map (fun p => (p.seqno, p.size)) ↔
      seg ∈ pkts.map (fun p => (p.seqno, p.size))) {p : DataPacket} (hp : p ∈ pkts') :
    ∃ q ∈ pkts, q.seqno = p.seqno ∧ q.size = p.size := by
  obtain ⟨q, hq, heq⟩ := List.mem_map.mp ((hset _).mp (List.mem_map_of_mem hp))
  exact ⟨q, hq, congrArg Prod.fst heq, congrArg Prod.snd heq⟩

/-- Only the set of the segments matters. -/
theorem processAll_eq_of_same {S : Nat} (hS : 1 ≤ S) {pkts pkts' : List DataPacket}
    (hgrid : OnGrid S pkts)
    (hset : ∀ seg, seg ∈ pkts'.map (fun p => (p.seqno, p.size)) ↔
      seg ∈ pkts.map (fun p => (p.seqno, p.size))) :
    new.processAll pkts' = new.processAll pkts := by
  have hgrid' : OnGrid S pkts' := by
    intro p hp
    obtain ⟨q, hq, hseq, hsize⟩ := exists_same_segment hset hp
    obtain ⟨k, hk, hkS⟩ := hgrid q hq
    exact ⟨k, hseq ▸ hk, hsize ▸ hkS⟩
  obtain ⟨n, h⟩ := reassembled_processAll hS hgrid (reassembled_new S)
  obtain ⟨n', h'⟩ := reassembled_processAll hS hgrid' (reassembled_new S)
  refine reassembled_unique (fun k => ?_) h' h
  rw [false_or, false_or]
  constructor
  · rintro ⟨p, hp, hk⟩
    obtain ⟨q, hq, hseq, -⟩ := exists_same_segment hset hp
    exact ⟨q, hq, hseq.trans hk⟩
  · rintro ⟨q, hq, hk⟩
    obtain ⟨p, hp, hseq, -⟩ := exists_same_segment (fun seg => (hset seg).symm) hq
    exact ⟨p, hp, hseq.trans hk⟩

/-- The sink in `Nat` after any sequence of segments of size `S`: the cumulative ack is the
    length of the longest received prefix, `_received` holds exactly the received segments
    beyond it in strictly increasing order, and every sequence with the same set of segments
    ends in the same state. -/
theorem reassembled_of_new (S : Nat) (hS : 1 ≤ S) (pkts : List DataPacket)
    (hgrid : ∀ p ∈ pkts, ∃ k, p.seqno = k * S + 1 ∧ p.size = S) :
    ((∀ b, 1 ≤ b → b ≤ (new.processAll pkts).cumulativeAck → Covers pkts b) ∧
      ¬ Covers pkts ((new.processAll pkts).cumulativeAck + 1)) ∧
    (∀ e, e ∈ (new.processAll pkts).received ↔
      ∃ p ∈ pkts, e = (p.seqno, p.size) ∧ (new.processAll pkts).cumulativeAck < p.seqno) ∧
    (new.processAll pkts).received.Pairwise (fun a b => a.1 < b.1) ∧
    ∀ pkts' : List DataPacket,
      (∀ seg, seg ∈ pkts'.map (fun p => (p.seqno, p.size)) ↔
        seg ∈ pkts.map (fun p => (p.seqno, p.size))) →
      new.processAll pkts' = new.processAll pkts := by
  obtain ⟨n, h⟩ := reassembled_processAll hS hgrid (reassembled_new S)
  have h := h.congr fun k => by rw [false_or]
  refine ⟨⟨?_, ?_⟩, ?_, h.sorted, fun _ hset => processAll_eq_of_same hS hgrid hset⟩
  · intro b hb hle
    rw [h.ack] at hle
    refine (covers_iff_hasSegment hS hgrid hb).mpr (h.below _ ?_)
    rw [Nat.div_lt_iff_lt_mul hS]
    omega
  · rw [h.ack, covers_iff_hasSegment hS hgrid (Nat.le_add_left 1 _), Nat.add_sub_cancel,
      Nat.mul_div_cancel n hS]
    exact h.gap
  · intro e
    rw [h.mem, h.ack]
    constructor
    · rintro ⟨k, ⟨p, hp, hseq⟩, hlt, rfl⟩
      obtain ⟨-, -, hsize⟩ := hgrid p hp
      refine ⟨p, hp, by rw [hseq, hsize], ?_⟩
      have := Nat.mul_le_mul_right S hlt.le
      omega
    · rintro ⟨p, hp, rfl, hlt⟩
      obtain ⟨k, hseq, hsize⟩ := hgrid p hp
      refine ⟨k, ⟨p, hp, hseq⟩, ?_, by rw [hseq, hsize]⟩
      -- segment `n` itself is the gap, so `k ≠ n`
      rcases Nat.lt_trichotomy n k with hnk | rfl | hkn
      · exact hnk
      · exact absurd ⟨p, hp, hseq⟩ h.gap
      · have := Nat.mul_le_mul_right S (Nat.succ_le_of_lt hkn)
        rw [Nat.succ_mul] at this
        omega

/-- What the code has done with the segments `pkts`: the cumulative ack is the length of the
    longest received prefix, `_received` holds exactly the received segments beyond it in
    strictly increasing order, and every sequence with the same set of segments ends in the
    same state. -/
structure Reassembles (pkts : List DataPacket) : Prop where
  covered : ∀ b, 1 ≤ b → b ≤ (new.processAll64 pkts).cumulativeAck → Covers pkts b
  longest : ¬ Covers pkts ((new.processAll64 pkts).cumulativeAck + 1)
  received : ∀ e, e ∈ (new.processAll64 pkts).received ↔
    ∃ p ∈ pkts, e = (p.seqno, p.size) ∧ (new.processAll64 pkts).cumulativeAck < p.seqno
  increasing : (new.processAll64 pkts).received.Pairwise fun a b => a.1 < b.1
  unordered : ∀ pkts' : List DataPacket,
    (∀ seg, seg ∈ pkts'.map (fun p => (p.seqno, p.size)) ↔
      seg ∈ pkts.map (fun p => (p.seqno, p.size))) →
    new.processAll64 pkts' = new.processAll64 pkts

/-- With all bytes up to `2 ^ 64` received no word is the length of the prefix. -/
theorem not_reassembles_of_full {pkts : List DataPacket}
    (hfull : ∀ b, 1 ≤ b → b ≤ 2 ^ 64 → Covers pkts b) : ¬ Reassembles pkts := by
  intro h
  have hlt := cumulativeAck_processAll64_lt (d := new) pkts (Nat.two_pow_pos 64)
  exact h.longest (hfull _ (Nat.le_add_left 1 _) hlt)

/-- **Reassembly.**  Segments of size `S` are reassembled, in any order and with any
    duplicates, exactly if a byte up to `2 ^ 64` is missing. -/
theorem processAll_reassembles_iff (S : Nat) (hS : 1 ≤ S) (pkts : List DataPacket)
    (hgrid : ∀ p ∈ pkts, ∃ k, p.seqno = k * S + 1 ∧ p.size = S)
    (hword : ∀ p ∈ pkts, p.seqno < 2 ^ 64) :
    Reassembles pkts ↔ ∃ b, 1 ≤ b ∧ b ≤ 2 ^ 64 ∧ ¬ Covers pkts b := by
  constructor
  · intro h
    by_contra hnone
    refine not_reassembles_of_full (fun b hb hle => ?_) h
    by_contra hmissing
    exact hnone ⟨b, hb, hle, hmissing⟩
  · rintro ⟨b, hb, hle, hmissing⟩
    obtain ⟨⟨hcovered, hlongest⟩, hreceived, hsorted, hsame⟩ := reassembled_of_new S hS pkts hgrid
    have hnumbered : ∀ p ∈ pkts, Numbered p.seqno := by
      intro p hp
      obtain ⟨k, hk, -⟩ := hgrid p hp
      exact ⟨by omega, hword p hp⟩
    -- the prefix ends before the missing byte
    have hlt : (new.processAll pkts).cumulativeAck < 2 ^ 64 := by
      by_contra hge
      exact hmissing (hcovered b hb (by omega))
    have heq := processAll64_eq (d := new) (fun _ he => absurd he List.not_mem_nil) hnumbered hlt
    refine ⟨?_, ?_, ?_, ?_, fun pkts' hset => ?_⟩
    · rw [heq]
      exact hcovered
    · rw [heq]
      exact hlongest
    · rw [heq]
      exact hreceived
    · rw [heq]
      exact hsorted
    · have hsame' := hsame pkts' hset
      have hnumbered' : ∀ p ∈ pkts', Numbered p.seqno := by
        intro p hp
        obtain ⟨q, hq, hseq, -⟩ := exists_same_segment hset hp
        rw [← hseq]
        exact hnumbered q hq
      rw [heq, ← hsame']
      refine processAll64_eq (fun _ he => absurd he List.not_mem_nil) hnumbered' ?_
      rw [hsame']
      exact hlt

/-- Three segments of four bytes out of order, one of them twice: byte 5 is missing. -/
theorem processAll_reassembles_three :
    Reassembles [⟨9, 4, 0, false, false⟩, ⟨1, 4, 0, false, false⟩, ⟨9, 4, 0, false, false⟩] := by
  refine (processAll_reassembles_iff 4 (by decide) _ (fun p hp => ?_) (fun p hp => ?_)).mpr
    ⟨5, by decide, by decide, ?_⟩
  · simp only [List.mem_cons, List.not_mem_nil, or_false] at hp
    rcases hp with rfl | rfl | rfl
    · exact ⟨2, rfl, rfl⟩
    · exact ⟨0, rfl, rfl⟩
    · exact ⟨2, rfl, rfl⟩
  · simp only [List.mem_cons, List.not_mem_nil, or_false] at hp
    rcases hp with rfl | rfl | rfl <;> decide
  · rintro ⟨p, hp, hlo, hhi⟩
    simp only [List.mem_cons, List.not_mem_nil, or_false] at hp
    rcases hp with rfl | rfl | rfl
    · exact absurd hlo (by decide)
    · exact absurd hhi (by decide)
    · exact absurd hlo (by decide)

/-- `2 ^ 34` segments of `2 ^ 30` bytes. -/
def fullRange : List DataPacket :=
  (List.range (2 ^ 34)).map fun k => { seqno := k * 2 ^ 30 + 1, size := 2 ^ 30, ts := 0 }

/-- All bytes up to `2 ^ 64` arrive, and no word is their number. -/
theorem fullRange_breaks :
    ¬ ∀ (S : Nat) (pkts : List DataPacket), 1 ≤ S →
      (∀ p ∈ pkts, ∃ k, p.seqno = k * S + 1 ∧ p.size = S) →
      (∀ p ∈ pkts, p.seqno < 2 ^ 64) → Reassembles pkts := by
  intro hall
  refine not_reassembles_of_full (fun b hb hle => ?_) (hall (2 ^ 30) fullRange (by decide) ?_ ?_)
  · refine ⟨_, List.mem_map_of_mem (List.mem_range.mpr ?_ : (b - 1) / 2 ^ 30 ∈ _), ?_, ?_⟩
    · omega
    · dsimp only
      omega
    · dsimp only
      omega
  · intro p hp
    obtain ⟨k, -, rfl⟩ := List.mem_map.mp hp
    exact ⟨k, rfl, rfl⟩
  · intro p hp
    obtain ⟨k, hk, rfl⟩ := List.mem_map.mp hp
    have hk' := List.mem_range.mp hk
    dsimp only
    omega

end DataSink
end Htsim
end DatacenterNetworking
