/-
  DatacenterNetworking.Dpdk.ReceiverMemory

  The ring `seqbuf` has one slot for all sequence numbers equal modulo `BUF_SIZE`.
  Nothing in the receiver keeps two packets that it still needs out of one slot:
  the sender's write window does, because `last_pkt_acked` never reaches
  `nxt_pkt_expcd` and no packet is more than `BUF_SIZE` beyond `last_pkt_acked`.
-/

import DatacenterNetworking.Dpdk.Reliability

namespace DatacenterNetworking
namespace Dpdk

/-- With a flow size that is not negative there are at most `2^25` packets. -/
theorem numPing_le {cfg : Config} (h : 0 ≤ cfg.flowSize) : cfg.numPing ≤ 2 ^ 25 := by
  have hint := cfg.flowSize_int
  simp only [Config.numPing, payloadLen]
  rw [Int.tdiv_eq_ediv_of_nonneg h]
  omega

/-- What the ring, the sender's window and the packets in flight have to do with
    `nxt_pkt_expcd`. -/
structure RingSafe (cfg : Config) (s : State) : Prop where
  nxt_pos : ∀ f, 1 ≤ (s.server.flows f).nxtPktExpcd
  acks : ∀ a ∈ s.acks, a.recvAck < (s.server.flows a.fid).nxtPktExpcd
  acked : ∀ f, (s.client.flows f).lastPktAcked < (s.server.flows f).nxtPktExpcd
  written : ∀ f, (s.client.flows f).lastPktWritten ≤ (s.client.flows f).lastPktAcked + BUF_SIZE ∧
    (s.client.flows f).lastPktWritten ≤ cfg.numPing
  frames : ∀ f seq, Frame.data f seq ∈ s.frames →
    1 ≤ seq ∧ seq < (s.server.flows f).nxtPktExpcd + BUF_SIZE ∧ seq ≤ cfg.numPing
  received : ∀ f seq, (f, seq) ∈ s.received →
    seq < (s.server.flows f).nxtPktExpcd + BUF_SIZE ∧ seq ≤ cfg.numPing ∧
      ((s.server.flows f).nxtPktExpcd ≤ seq → (s.server.flows f).seqbuf (slot seq) = seq)

/-- The sequence numbers stay clear of the end of `uint32_t`. -/
def SeqsBelow (s : State) : Prop :=
  ∀ f < MAX_FLOW_NUM, (s.server.flows f).nxtPktExpcd < 2 ^ 32 - BUF_SIZE

instance (s : State) : Decidable (SeqsBelow s) :=
  inferInstanceAs (Decidable (∀ f < MAX_FLOW_NUM, _))

/-- A flow that was heard from has a row in the arrays. -/
theorem heard_lt {s : Server} {f : Nat} (h : f ∈ s.heard) : f < MAX_FLOW_NUM :=
  List.mem_range.mp (List.mem_filter.mp h).1

theorem ringSafe_init (cfg : Config) : RingSafe cfg init where
  nxt_pos := fun _ => le_rfl
  acks := fun _ ha => absurd ha List.not_mem_nil
  acked := fun _ => Nat.zero_lt_one
  written := fun _ => ⟨Nat.zero_le _, Nat.zero_le _⟩
  frames := fun _ _ hf => absurd hf List.not_mem_nil
  received := fun _ _ hr => absurd hr List.not_mem_nil

/-! ## The receiver's steps -/

/-- `nxt_pkt_expcd` does not go back: the scan passes numbers of packets the sender has,
    and those are far from the end of `uint32_t`. -/
theorem nxtPktExpcd_advance {s : SrvFlow} {R G : Set Nat} {N : Nat} (h : s.Sound R G)
    (hR : ∀ k ∈ R, k ≤ N) (hN : N ≤ 2 ^ 25) (hpos : 1 ≤ s.nxtPktExpcd)
    (hlt : s.nxtPktExpcd < 2 ^ 32 - BUF_SIZE) :
    s.nxtPktExpcd ≤ s.advance.nxtPktExpcd ∧ 1 ≤ s.advance.nxtPktExpcd ∧
      s.advance.ackNum < s.advance.nxtPktExpcd ∧ s.advance.seqbuf = s.seqbuf := by
  have hscan : s.nxtPktExpcd ≤ s.scanned ∧ (s.scanned = s.nxtPktExpcd ∨ s.scanned ≤ N + 1) := by
    apply scan_induction (P := fun n => s.nxtPktExpcd ≤ n ∧ (n = s.nxtPktExpcd ∨ n ≤ N + 1))
    · intro n hn hslot
      -- a recorded number is not 0 here, so it was received
      have hrec := h.recorded (slot n)
      rw [hslot] at hrec
      have hle := hR n (hrec.resolve_left (by omega))
      rw [succ32_of_lt (by omega)]
      omega
    · exact ⟨le_rfl, Or.inl rfl⟩
  have hbuf : BUF_SIZE = 128 := rfl
  have hsucc : succ32 s.scanned = s.scanned + 1 := succ32_of_lt (by omega)
  simp only [SrvFlow.advance]
  by_cases hg : s.givesUp
  · rw [if_pos hg]
    have hpred : pred32 (succ32 s.scanned) = s.scanned := pred32_succ32 (by omega)
    rw [hsucc] at hpred
    simp only [SrvFlow.ackNum, hpred, hsucc, and_true]
    omega
  · rw [if_neg hg]
    have hpred : pred32 s.scanned = s.scanned - 1 := pred32_of_pos (by omega) (by omega)
    simp only [SrvFlow.ackNum, hpred, and_true]
    omega

theorem ringSafe_serverRecv {cfg : Config} {s t : State} {i : Nat} (h : RingSafe cfg s)
    (hlt : SeqsBelow s) (hstep : step cfg s (.serverRecv i) = some t) : RingSafe cfg t := by
  rcases serverRecv_cases hstep with
    ⟨fid, seq, hfid, hmem, hflows, hrecv, hsub, hclient, hacks, -, -⟩ |
    ⟨hflows, hrecv, hsub, hclient, hacks, -, -⟩
  · obtain ⟨hpos, hwin, hping⟩ := h.frames fid seq hmem
    have hnxt : ∀ f, (t.server.flows f).nxtPktExpcd = (s.server.flows f).nxtPktExpcd := by
      intro f
      rw [hflows]
      by_cases hf : f = fid
      · rw [hf, Function.update_self]
        rfl
      · rw [Function.update_of_ne hf]
    refine
      { nxt_pos := fun f => by rw [hnxt]; exact h.nxt_pos f
        acks := fun a ha => by rw [hnxt]; rw [hacks] at ha; exact h.acks a ha
        acked := fun f => by rw [hnxt, hclient]; exact h.acked f
        written := by rw [hclient]; exact h.written
        frames := fun f q hq => by rw [hnxt]; exact h.frames f q (hsub _ hq)
        received := fun f k hk => ?_ }
    rw [hnxt]
    rw [hrecv] at hk
    -- `k` is the packet just taken or one taken before
    have hk' : (f = fid ∧ k = seq) ∨ (f, k) ∈ s.received := by
      rcases List.mem_cons.mp hk with heq | hk
      · cases heq
        exact Or.inl ⟨rfl, rfl⟩
      · exact Or.inr hk
    have hbounds : k < (s.server.flows f).nxtPktExpcd + BUF_SIZE ∧ k ≤ cfg.numPing := by
      rcases hk' with ⟨rfl, rfl⟩ | hk'
      · exact ⟨hwin, hping⟩
      · exact ⟨(h.received f k hk').1, (h.received f k hk').2.1⟩
    refine ⟨hbounds.1, hbounds.2, fun hge => ?_⟩
    rw [hflows]
    by_cases hf : f = fid
    · subst hf
      rw [Function.update_self]
      show (if (s.server.flows f).nxtPktExpcd ≤ seq then
        Function.update (s.server.flows f).seqbuf (slot seq) seq
          else (s.server.flows f).seqbuf) (slot k) = k
      by_cases hwrite : (s.server.flows f).nxtPktExpcd ≤ seq
      · rw [if_pos hwrite]
        by_cases hslot : slot k = slot seq
        · -- two numbers of the window in one slot are the same number
          have hbuf : BUF_SIZE = 128 := rfl
          have hlow := hlt f hfid
          have heq := eq_of_slot_eq hge hwrite hbounds.1 hwin (h.nxt_pos f) (by omega) hslot
          rw [hslot, Function.update_self, heq]
        · rw [Function.update_of_ne hslot]
          have hold : (f, k) ∈ s.received := by
            refine hk'.resolve_left ?_
            rintro ⟨-, rfl⟩
            exact hslot rfl
          exact (h.received f k hold).2.2 hge
      · rw [if_neg hwrite]
        have hold : (f, k) ∈ s.received := by
          refine hk'.resolve_left ?_
          rintro ⟨-, rfl⟩
          exact hwrite hge
        exact (h.received f k hold).2.2 hge
    · rw [Function.update_of_ne hf]
      have hold := hk'.resolve_left fun heq => hf heq.1
      exact (h.received f k hold).2.2 hge
  · exact
      { nxt_pos := by rw [hflows]; exact h.nxt_pos
        acks := by rw [hflows, hacks]; exact h.acks
        acked := by rw [hflows, hclient]; exact h.acked
        written := by rw [hclient]; exact h.written
        frames := fun f q hq => by rw [hflows]; exact h.frames f q (hsub _ hq)
        received := by rw [hflows, hrecv]; exact h.received }

theorem ringSafe_serverAck {cfg : Config} {s t : State} (h : RingSafe cfg s)
    (hsound : AcksSound cfg s) (hsize : 0 ≤ cfg.flowSize) (hlt : SeqsBelow s)
    (hstep : step cfg s .serverAck = some t) : RingSafe cfg t := by
  obtain ⟨hheard, hquiet, ⟨acks, hacks, -, hnum⟩, -, hclient, hframes, hrecv⟩ :=
    serverAck_cases hstep
  have hadv : ∀ f ∈ s.server.heard, _ := fun f hf => nxtPktExpcd_advance (hsound.server f)
    (fun k hk => (h.received f k hk).2.1) (numPing_le hsize) (h.nxt_pos f) (hlt f (heard_lt hf))
  -- `nxt_pkt_expcd` only grows, and acks leave the ring alone
  have hflow : ∀ f, (s.server.flows f).nxtPktExpcd ≤ (t.server.flows f).nxtPktExpcd ∧
      (t.server.flows f).seqbuf = (s.server.flows f).seqbuf := by
    intro f
    by_cases hf : f ∈ s.server.heard
    · rw [hheard f hf]
      exact ⟨(hadv f hf).1, (hadv f hf).2.2.2⟩
    · rw [hquiet f hf]
      exact ⟨le_rfl, rfl⟩
  refine
    { nxt_pos := fun f => (h.nxt_pos f).trans (hflow f).1
      acks := fun a ha => ?_
      acked := fun f => by rw [hclient]; exact (h.acked f).trans_le (hflow f).1
      written := by rw [hclient]; exact h.written
      frames := fun f q hq => ?_
      received := fun f k hk => ?_ }
  · rw [hacks] at ha
    rcases List.mem_append.mp ha with ha | ha
    · exact (h.acks a ha).trans_le (hflow a.fid).1
    · -- an ack sent now is one less than the `nxt_pkt_expcd` of its flow
      obtain ⟨hfid, heq⟩ := hnum a ha
      rw [heq, hheard a.fid hfid]
      exact (hadv a.fid hfid).2.2.1
  · rw [hframes] at hq
    obtain ⟨hpos, hwin, hping⟩ := h.frames f q hq
    have hle := (hflow f).1
    exact ⟨hpos, by omega, hping⟩
  · -- less is needed than before, and the ring is as it was
    rw [hrecv] at hk
    obtain ⟨hwin, hping, hrec⟩ := h.received f k hk
    have hle := (hflow f).1
    refine ⟨by omega, hping, fun hge => ?_⟩
    rw [(hflow f).2]
    exact hrec (hle.trans hge)

/-! ## The sender's steps -/

/-- What the sender puts in flight lies between `last_pkt_acked` and `last_pkt_written`. -/
theorem ringSafe_client {cfg : Config} {s t : State} {clock stamp : Nat → Nat}
    (h : RingSafe cfg s) (hlt : SeqsBelow s)
    (hstep : step cfg s (.client clock stamp) = some t) : RingSafe cfg t := by
  obtain ⟨⟨c, frames⟩, hc, rfl⟩ := Option.map_eq_some_iff.mp hstep
  have hbuf : BUF_SIZE = 128 := rfl
  have hacked := lastPktAcked_step hc
  have hwritten : ∀ f, (c.flows f).lastPktWritten ≤ (s.client.flows f).lastPktAcked + BUF_SIZE ∧
      (c.flows f).lastPktWritten ≤ cfg.numPing := by
    intro f
    rcases client_flow_cases hc f with hf | ⟨seqs, hr⟩ | ⟨hfid, hf⟩ | ⟨seqs, hr⟩
    · rw [hf]
      exact h.written f
    · rw [(retransmit_spec hr).2.2.1]
      exact h.written f
    · -- the new window; `last_pkt_acked + BUF_SIZE` does not wrap
      have hlow := h.acked f
      have hhigh := hlt f (hfid.trans_le cfg.flowNum_le)
      rw [hf]
      simp only [CliFlow.populate]
      rw [Nat.mod_eq_of_lt (by omega)]
      split_ifs
      · omega
      · omega
    · rw [(send_spec hr).2.1]
      exact h.written f
  -- only the retransmission and the send loop put packets in flight
  have hnew : ∀ f q, Frame.data f q ∈ frames →
      1 ≤ q ∧ q ≤ (s.client.flows f).lastPktWritten := by
    intro f q hq
    rcases client_step_cases hc with ⟨-, hno, -⟩ | ⟨fid, g, seqs, hfid, hr, -, hfr, -⟩ |
      ⟨-, hfr, -⟩ | ⟨fid, g, seqs, -, hr, -, hfr, -⟩
    · exact absurd hq (hno f q)
    · rw [hfr] at hq
      obtain ⟨i, hi, heq⟩ := List.mem_map.mp hq
      cases heq
      have hrange := mem_unacked ((retransmit_spec hr).2.2.2 q hi)
      have hlow := h.acked f
      have hhigh := hlt f (hfid.trans_le cfg.flowNum_le)
      rw [succ32_of_lt (by omega)] at hrange
      omega
    · rw [hfr] at hq
      exact absurd hq List.not_mem_nil
    · rw [hfr] at hq
      obtain ⟨i, hi, heq⟩ := List.mem_map.mp hq
      cases heq
      exact (send_spec hr).2.2.2 q hi
  refine
    { nxt_pos := h.nxt_pos
      acks := h.acks
      acked := fun f => by rw [hacked f]; exact h.acked f
      written := fun f => by rw [hacked f]; exact hwritten f
      frames := fun f q hq => ?_
      received := h.received }
  rcases List.mem_append.mp hq with hq | hq
  · exact h.frames f q hq
  · obtain ⟨hpos, hle⟩ := hnew f q hq
    have hw := h.written f
    have hlow := h.acked f
    show 1 ≤ q ∧ q < (s.server.flows f).nxtPktExpcd + BUF_SIZE ∧ q ≤ cfg.numPing
    omega

theorem ringSafe_clientRecv {cfg : Config} {s t : State} {i : Nat} (h : RingSafe cfg s)
    (hstep : step cfg s (.clientRecv i) = some t) : RingSafe cfg t := by
  obtain ⟨a, ha, c, hc, -, hclient, hsub, hserver, hframes, hrecv, -, -⟩ :=
    clientRecv_cases hstep
  obtain ⟨hacked, hwritten, -⟩ := recv_spec hc
  have hbelow := h.acks a ha
  have hlow := h.acked a.fid
  have hw := h.written a.fid
  have hflows : t.client.flows = Function.update s.client.flows a.fid c := by
    rw [hclient]
    rfl
  -- the receiver's part is untouched; the sender's flow takes the ack or keeps what it had
  refine
    { nxt_pos := by rw [hserver]; exact h.nxt_pos
      acks := fun x hx => by rw [hserver]; exact h.acks x (hsub x hx)
      acked := fun f => ?_
      written := fun f => ?_
      frames := by rw [hserver, hframes]; exact h.frames
      received := by rw [hserver, hrecv]; exact h.received }
  · rw [hserver, hflows]
    by_cases hf : f = a.fid
    · rw [hf, Function.update_self]
      rcases hacked with ⟨heq, -⟩ | heq
      · rw [heq]
        exact hbelow
      · rw [heq]
        exact hlow
    · rw [Function.update_of_ne hf]
      exact h.acked f
  · rw [hflows]
    by_cases hf : f = a.fid
    · rw [hf, Function.update_self, hwritten]
      omega
    · rw [Function.update_of_ne hf]
      exact h.written f

theorem ringSafe_step {cfg : Config} (hsize : 0 ≤ cfg.flowSize) {s t : State} {a : Act}
    (h : RingSafe cfg s) (hsound : AcksSound cfg s) (hlt : SeqsBelow s)
    (hstep : step cfg s a = some t) : RingSafe cfg t := by
  -- the network's own steps
  have hfault : ((∃ f, a = .frameFault f) ∨ ∃ f, a = .ackFault f) → RingSafe cfg t := by
    intro hf
    obtain ⟨hframes, hacks, hclient, hserver, hrecv, -, -⟩ := fault_cases hf hstep
    exact
      { nxt_pos := by rw [hserver]; exact h.nxt_pos
        acks := fun x hx => by rw [hserver]; exact h.acks x (hacks x hx)
        acked := by rw [hserver, hclient]; exact h.acked
        written := by rw [hclient]; exact h.written
        frames := fun f q hq => by rw [hserver]; exact h.frames f q (hframes _ hq)
        received := by rw [hserver, hrecv]; exact h.received }
  cases a with
  | client clock stamp => exact ringSafe_client h hlt hstep
  | clientRecv i => exact ringSafe_clientRecv h hstep
  | serverRecv i => exact ringSafe_serverRecv h hlt hstep
  | serverAck => exact ringSafe_serverAck h hsound hsize hlt hstep
  | frameFault f => exact hfault (Or.inl ⟨f, rfl⟩)
  | ackFault f => exact hfault (Or.inr ⟨f, rfl⟩)

/-- The receiver's memory.  In every run whose sequence numbers stay below `2^32 - 128`, a
    data packet in flight is less than a ring beyond `nxt_pkt_expcd`; what was received and
    is still needed is recorded in its slot; and a packet in flight that will be written to
    a slot finds no other needed packet there. -/
theorem ring_keeps_needed (cfg : Config) (hsize : 0 ≤ cfg.flowSize) (acts : List Act)
    (s : State) (hrun : (system cfg).run init acts = some s)
    (hbelow : (system cfg).Always SeqsBelow init acts) (f : Nat) (hf : f < MAX_FLOW_NUM) :
    (∀ seq, Frame.data f seq ∈ s.frames → seq ≤ (s.server.flows f).nxtPktExpcd + 127) ∧
    (∀ seq, (f, seq) ∈ s.received → (s.server.flows f).nxtPktExpcd ≤ seq →
      (s.server.flows f).seqbuf ((seq - 1) % BUF_SIZE) = seq) ∧
    (∀ seq k, Frame.data f seq ∈ s.frames → (s.server.flows f).nxtPktExpcd ≤ seq →
      (f, k) ∈ s.received → (s.server.flows f).nxtPktExpcd ≤ k →
      (seq - 1) % BUF_SIZE = (k - 1) % BUF_SIZE → k = seq) := by
  have hinv : RingSafe cfg s ∧ AcksSound cfg s :=
    Lts.run_induction_always (I := fun t => RingSafe cfg t ∧ AcksSound cfg t) (P := SeqsBelow)
      (fun _ _ _ hs hlt _ hstep =>
        ⟨ringSafe_step hsize hs.1 hs.2 hlt hstep, acksSound_step cfg hs.2 hstep⟩)
      ⟨ringSafe_init cfg, acksSound_init cfg⟩ hbelow hrun
  obtain ⟨h, -⟩ := hinv
  have hlt := hbelow.last hrun f hf
  have hpos := h.nxt_pos f
  have hbuf : BUF_SIZE = 128 := rfl
  -- inside the window the slot is the one of the source, without the wrap
  have hslot : ∀ n, (s.server.flows f).nxtPktExpcd ≤ n →
      n < (s.server.flows f).nxtPktExpcd + BUF_SIZE → (n - 1) % BUF_SIZE = slot n := by
    intro n hn hn'
    simp only [slot]
    rw [pred32_of_pos (by omega) (by omega)]
  refine ⟨fun seq hseq => ?_, fun seq hseq hge => ?_, fun seq k hseq hge hk hge' heq => ?_⟩
  -- two numbers of the window with the same slot are equal
  · have hwin := (h.frames f seq hseq).2.1
    omega
  · obtain ⟨hwin, -, hrec⟩ := h.received f seq hseq
    rw [hslot seq hge hwin]
    exact hrec hge
  · have hwin := (h.frames f seq hseq).2.1
    have hwin' := (h.received f k hk).1
    rw [hslot seq hge hwin, hslot k hge' hwin'] at heq
    exact eq_of_slot_eq hge' hge hwin' hwin hpos (by omega) heq.symm

/-- Packet 2 arrives before packet 1, while a copy of both is in flight. -/
def reorderRun : List Act :=
  List.replicate 6 (.client (fun _ => 0) fun _ => 0) ++
    [.frameFault (.duplicate 1), .serverRecv 2]

theorem ring_keeps_needed_two :
    ∃ s, (system twoPackets).run init reorderRun = some s ∧
      (∀ seq, Frame.data 0 seq ∈ s.frames → seq ≤ (s.server.flows 0).nxtPktExpcd + 127) ∧
      (s.server.flows 0).seqbuf ((2 - 1) % BUF_SIZE) = 2 := by
  have hring := ring_keeps_needed twoPackets (by decide) reorderRun
    (((system twoPackets).run init reorderRun).get (by decide +kernel))
    (Option.some_get _).symm (by decide +kernel) 0 (by decide)
  exact ⟨_, (Option.some_get _).symm, hring.1, hring.2.1 2 (by decide +kernel) (by decide +kernel)⟩

end Dpdk
end DatacenterNetworking
