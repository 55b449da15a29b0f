/-
  DatacenterNetworking.Dpdk.Indices

  The sender's indices.  It should hold of every flow, between any two steps of its
  loop, that `last_pkt_acked <= last_pkt_sent <= last_pkt_written <= NUM_PING`, with
  at most a ring of packets between the first and the third.

  The sender takes whatever ack number arrives, so this is a matter of what the
  receiver acks.  It acks numbers it received, which the sender had written, and a
  number it gives up: the one after those, whether or not the sender has written it.

  `inOrder_of_neverAhead`: the indices stay in order in every run in which the
  receiver gives up only what was written, and `last_pkt_acked + BUF_SIZE` does not
  wrap.
-/

import DatacenterNetworking.Dpdk.System

namespace DatacenterNetworking
namespace Dpdk

/-! ## One flow of the sender -/

/-- The indices of a flow are in order, and within a window. -/
structure CliFlow.InOrder (numPing : Nat) (c : CliFlow) : Prop where
  acked_le : c.lastPktAcked ≤ c.lastPktSent
  sent_le : c.lastPktSent ≤ c.lastPktWritten
  written_le : c.lastPktWritten ≤ numPing
  window : c.lastPktWritten - c.lastPktAcked ≤ BUF_SIZE

section Flow

variable {numPing : Nat} {c c' : CliFlow} {seqs : List Nat}

theorem inOrder_init (numPing : Nat) : CliFlow.init.InOrder numPing where
  acked_le := le_rfl
  sent_le := le_rfl
  written_le := Nat.zero_le _
  window := Nat.zero_le _

theorem inOrder_retransmit {clock stamp : Nat → Nat} (h : c.InOrder numPing)
    (hr : c.retransmit clock stamp = some (c', seqs)) :
    c'.InOrder numPing ∧ c.lastPktWritten = c'.lastPktWritten ∧
      ∀ i ∈ seqs, i ≤ c'.lastPktWritten := by
  obtain ⟨hacked, hsent, hwritten, hseqs⟩ := retransmit_spec hr
  refine ⟨⟨?_, ?_, ?_, ?_⟩, hwritten.symm, fun i hi => ?_⟩
  · rw [hacked, hsent]
    exact h.acked_le
  · rw [hsent, hwritten]
    exact h.sent_le
  · rw [hwritten]
    exact h.written_le
  · rw [hacked, hwritten]
    exact h.window
  · rw [hwritten]
    exact (mem_unacked (hseqs i hi)).2.2

/-- Without a wrap the window only moves forward. -/
theorem inOrder_populate (h : c.InOrder numPing) (hwrap : c.lastPktAcked + BUF_SIZE < 2 ^ 32) :
    (c.populate numPing).InOrder numPing ∧
      c.lastPktWritten ≤ (c.populate numPing).lastPktWritten := by
  obtain ⟨hacked, hsent, hwritten, hwindow⟩ := h
  have hpop : (c.populate numPing).lastPktWritten = min numPing (c.lastPktAcked + BUF_SIZE) := by
    simp only [CliFlow.populate, Nat.mod_eq_of_lt hwrap]
    split_ifs <;> omega
  have hup : c.lastPktWritten ≤ (c.populate numPing).lastPktWritten := by
    rw [hpop]
    omega
  refine ⟨⟨hacked, hsent.trans hup, ?_, ?_⟩, hup⟩
  · rw [hpop]
    exact min_le_left _ _
  · rw [hpop]
    show min numPing (c.lastPktAcked + BUF_SIZE) - c.lastPktAcked ≤ BUF_SIZE
    omega

theorem inOrder_send {stamp : Nat → Nat} (h : c.InOrder numPing)
    (hs : c.send stamp = some (c', seqs)) :
    c'.InOrder numPing ∧ c.lastPktWritten = c'.lastPktWritten ∧
      ∀ i ∈ seqs, i ≤ c'.lastPktWritten := by
  obtain ⟨hacked, hwritten, hend, hseqs⟩ := send_spec hs
  have hup : c.lastPktSent ≤ c'.lastPktSent := by
    simp only [CliFlow.send] at hs
    split_ifs at hs
    cases hs
    exact (sendLoop_spec _ c).2.2.1
  refine ⟨⟨?_, ?_, ?_, ?_⟩, hwritten.symm, fun i hi => ?_⟩
  · rw [hacked]
    exact h.acked_le.trans hup
  · rw [hwritten]
    rcases hend with hend | hend
    · exact hend
    · exact hend.trans_le h.sent_le
  · rw [hwritten]
    exact h.written_le
  · rw [hacked, hwritten]
    exact h.window
  · rw [hwritten]
    exact (hseqs i hi).2

/-- An ack for something written drags `last_pkt_sent` no further than that. -/
theorem inOrder_recv {ack wnd : Nat} (h : c.InOrder numPing) (hack : ack ≤ c.lastPktWritten)
    (hr : c.recv ack wnd = some c') :
    c'.InOrder numPing ∧ c'.lastPktWritten = c.lastPktWritten := by
  obtain ⟨hacked, hsent, hwritten, hwindow⟩ := h
  simp only [CliFlow.recv] at hr
  split_ifs at hr with hnew hmax hdrag
  · cases hr
    refine ⟨⟨le_rfl, hack, hwritten, ?_⟩, rfl⟩
    show c.lastPktWritten - ack ≤ BUF_SIZE
    omega
  · cases hr
    refine ⟨⟨not_lt.mp hdrag, hsent, hwritten, ?_⟩, rfl⟩
    show c.lastPktWritten - ack ≤ BUF_SIZE
    omega
  · cases hr
    exact ⟨⟨hacked, hsent, hwritten, hwindow⟩, rfl⟩

end Flow

/-! ## One flow of the receiver -/

/-- The receiver knows of nothing beyond packet `w`, and acks nothing beyond it. -/
structure SrvFlow.Within (w : Nat) (s : SrvFlow) : Prop where
  nxt_lt : s.nxtPktExpcd < 2 ^ 32
  recorded : ∀ n, s.seqbuf n ≤ w
  acked : s.ackNum ≤ w

namespace SrvFlow

variable {w w' : Nat} {s : SrvFlow}

theorem within_init (w : Nat) : init.Within w where
  nxt_lt := by decide
  recorded := fun _ => Nat.zero_le _
  acked := by
    show pred32 (succ32 0) ≤ w
    rw [pred32_succ32 (by omega)]
    exact Nat.zero_le w

theorem Within.mono (h : s.Within w) (hw : w ≤ w') : s.Within w' where
  nxt_lt := h.nxt_lt
  recorded := fun n => (h.recorded n).trans hw
  acked := h.acked.trans hw

theorem within_recv {seq : Nat} (h : s.Within w) (hseq : seq ≤ w) : (s.recv seq).Within w where
  nxt_lt := h.nxt_lt
  recorded := fun n => by
    show (if s.nxtPktExpcd ≤ seq then Function.update s.seqbuf (slot seq) seq else s.seqbuf) n ≤ w
    split_ifs
    · by_cases hn : n = slot seq
      · rw [hn, Function.update_self]
        exact hseq
      · rw [Function.update_of_ne hn]
        exact h.recorded n
    · exact h.recorded n
  acked := h.acked

/-- The scan ends one after a number that is recorded, or where it began. -/
theorem Within.scanned (h : s.Within w) : s.scanned < 2 ^ 32 ∧ pred32 s.scanned ≤ w := by
  refine scan_induction (P := fun n => n < 2 ^ 32 ∧ pred32 n ≤ w) ?_ BUF_SIZE s.nxtPktExpcd
    ⟨h.nxt_lt, h.acked⟩
  intro n hn hslot
  have hrec := h.recorded (slot n)
  refine ⟨succ32_lt n, ?_⟩
  rw [pred32_succ32 hn.1]
  omega

/-- A packet that is given up is acked. -/
theorem within_advance (h : s.Within w) (hgive : s.givesUp → s.scanned ≤ w) :
    s.advance.Within w := by
  obtain ⟨hlt, hle⟩ := h.scanned
  simp only [advance]
  by_cases hg : s.givesUp
  · rw [if_pos hg]
    refine { nxt_lt := succ32_lt _, recorded := h.recorded, acked := ?_ }
    show pred32 (succ32 s.scanned) ≤ w
    rw [pred32_succ32 hlt]
    exact hgive hg
  · rw [if_neg hg]
    exact { nxt_lt := hlt, recorded := h.recorded, acked := hle }

end SrvFlow

/-! ## Both programs -/

/-- The step gives up no packet that the sender has not written, and no window wraps. -/
def NeverAhead (cfg : Config) (s : State) : Act → Prop
  | .serverAck =>
      ∀ f ∈ s.server.heard, (s.server.flows f).givesUp →
        (s.server.flows f).scanned ≤ (s.client.flows f).lastPktWritten
  | .client _ _ =>
      s.client.pc = .populate → ∀ f < cfg.flowNum,
        (s.client.flows f).lastPktAcked + BUF_SIZE < 2 ^ 32
  | _ => True

instance (cfg : Config) (s : State) : (a : Act) → Decidable (NeverAhead cfg s a)
  | .serverAck => inferInstanceAs (Decidable (∀ f ∈ s.server.heard, _ → _))
  | .client _ _ => inferInstanceAs (Decidable (_ → ∀ f < cfg.flowNum, _))
  | .clientRecv _ => isTrue trivial
  | .serverRecv _ => isTrue trivial
  | .frameFault _ => isTrue trivial
  | .ackFault _ => isTrue trivial

/-- Nothing in flight, and nothing the receiver knows of, is beyond what was written. -/
structure Written (cfg : Config) (s : State) : Prop where
  client : ∀ f, (s.client.flows f).InOrder cfg.numPing
  server : ∀ f, (s.server.flows f).Within (s.client.flows f).lastPktWritten
  frames : ∀ f seq, Frame.data f seq ∈ s.frames → seq ≤ (s.client.flows f).lastPktWritten
  acks : ∀ a ∈ s.acks, a.recvAck ≤ (s.client.flows a.fid).lastPktWritten

theorem written_init (cfg : Config) : Written cfg init where
  client := fun _ => inOrder_init _
  server := fun _ => SrvFlow.within_init _
  frames := fun _ _ hm => absurd hm List.not_mem_nil
  acks := fun _ ha => absurd ha List.not_mem_nil

/-- A step of the sender that leaves its indices in order, writes on, and sends what is
    written. -/
theorem Written.of_client {cfg : Config} {s t : State} (h : Written cfg s)
    (hclient : ∀ f, (t.client.flows f).InOrder cfg.numPing)
    (hup : ∀ f, (s.client.flows f).lastPktWritten ≤ (t.client.flows f).lastPktWritten)
    (hserver : t.server = s.server)
    (hframes : ∀ f seq, Frame.data f seq ∈ t.frames →
      Frame.data f seq ∈ s.frames ∨ seq ≤ (t.client.flows f).lastPktWritten)
    (hacks : ∀ a ∈ t.acks, a ∈ s.acks) : Written cfg t where
  client := hclient
  server := fun f => by
    rw [hserver]
    exact (h.server f).mono (hup f)
  frames := fun f seq hm => (hframes f seq hm).elim
    (fun hold => (h.frames f seq hold).trans (hup f)) id
  acks := fun a ha => (h.acks a (hacks a ha)).trans (hup a.fid)

/-- What a step of the sender does to one flow, when the window does not wrap. -/
theorem client_step_inOrder {cfg : Config} {clock stamp : Nat → Nat} {c c' : Client}
    {frames : List Frame} {f : Nat} (h : (c.flows f).InOrder cfg.numPing)
    (hwrap : c.pc = .populate → f < cfg.flowNum →
      (c.flows f).lastPktAcked + BUF_SIZE < 2 ^ 32)
    (hstep : c.step cfg clock stamp = some (c', frames)) :
    (c'.flows f).InOrder cfg.numPing ∧
      (c.flows f).lastPktWritten ≤ (c'.flows f).lastPktWritten ∧
      ∀ seq, Frame.data f seq ∈ frames → seq ≤ (c'.flows f).lastPktWritten := by
  -- a flow that a place of the loop works on, or another one
  have hupdate : ∀ {fid : Nat} {g : CliFlow} {seqs : List Nat},
      ((c.flows fid).InOrder cfg.numPing →
        g.InOrder cfg.numPing ∧ (c.flows fid).lastPktWritten = g.lastPktWritten ∧
          ∀ i ∈ seqs, i ≤ g.lastPktWritten) →
      (Function.update c.flows fid g f).InOrder cfg.numPing ∧
        (c.flows f).lastPktWritten ≤ (Function.update c.flows fid g f).lastPktWritten ∧
        ∀ seq, Frame.data f seq ∈ seqs.map (Frame.data fid) →
          seq ≤ (Function.update c.flows fid g f).lastPktWritten := by
    intro fid g seqs hg
    by_cases hf : f = fid
    · subst hf
      obtain ⟨hin, hsame, hseqs⟩ := hg h
      rw [Function.update_self]
      refine ⟨hin, hsame.le, fun seq hm => ?_⟩
      obtain ⟨i, hi, heq⟩ := List.mem_map.mp hm
      cases heq
      exact hseqs _ hi
    · rw [Function.update_of_ne hf]
      refine ⟨h, le_rfl, fun seq hm => ?_⟩
      obtain ⟨i, -, heq⟩ := List.mem_map.mp hm
      cases heq
      exact absurd rfl hf
  have hidle : ∀ {frames : List Frame}, (∀ seq, Frame.data f seq ∉ frames) →
      (c.flows f).InOrder cfg.numPing ∧
        (c.flows f).lastPktWritten ≤ (c.flows f).lastPktWritten ∧
        ∀ seq, Frame.data f seq ∈ frames → seq ≤ (c.flows f).lastPktWritten :=
    fun hnone => ⟨h, le_rfl, fun seq hm => absurd hm (hnone seq)⟩
  cases hpc : c.pc with
  | head =>
    simp only [Client.step, hpc] at hstep
    split_ifs at hstep
    · cases hstep
      exact hidle fun _ => List.not_mem_nil
    · cases hstep
      exact hidle fun _ hm => by simp at hm
  | retransmit fid =>
    simp only [Client.step, hpc] at hstep
    split_ifs at hstep
    · obtain ⟨⟨g, seqs⟩, hr, heq⟩ := Option.map_eq_some_iff.mp hstep
      cases heq
      exact hupdate fun hin => inOrder_retransmit hin hr
    · cases hstep
      exact hidle fun _ => List.not_mem_nil
  | populate =>
    simp only [Client.step, hpc] at hstep
    cases hstep
    by_cases hf : f < cfg.flowNum
    · simp only [if_pos hf]
      obtain ⟨hin, hup⟩ := inOrder_populate h (hwrap hpc hf)
      exact ⟨hin, hup, fun seq hm => absurd hm List.not_mem_nil⟩
    · simp only [if_neg hf]
      exact hidle fun _ => List.not_mem_nil
  | send fid =>
    simp only [Client.step, hpc] at hstep
    split_ifs at hstep
    · obtain ⟨⟨g, seqs⟩, hr, heq⟩ := Option.map_eq_some_iff.mp hstep
      cases heq
      exact hupdate fun hin => inOrder_send hin hr
    · cases hstep
      exact hidle fun _ => List.not_mem_nil
  | recv =>
    simp only [Client.step, hpc] at hstep
    cases hstep
    exact hidle fun _ => List.not_mem_nil
  | done =>
    simp only [Client.step, hpc] at hstep
    cases hstep

theorem written_clientRecv {cfg : Config} {s t : State} {i : Nat} (h : Written cfg s)
    (hstep : step cfg s (.clientRecv i) = some t) : Written cfg t := by
  obtain ⟨a, ha, c, hc, -, hclient, hsub, hserver, hframes, -⟩ := clientRecv_cases hstep
  obtain ⟨hin, hsame⟩ := inOrder_recv (h.client a.fid) (h.acks a ha) hc
  -- the flow of the ack keeps what was written, and the others are not touched
  have hflow : ∀ f, (t.client.flows f).InOrder cfg.numPing ∧
      (t.client.flows f).lastPktWritten = (s.client.flows f).lastPktWritten := by
    intro f
    rw [hclient]
    show (Function.update s.client.flows a.fid c f).InOrder cfg.numPing ∧
      (Function.update s.client.flows a.fid c f).lastPktWritten = _
    by_cases hf : f = a.fid
    · subst hf
      rw [Function.update_self]
      exact ⟨hin, hsame⟩
    · rw [Function.update_of_ne hf]
      exact ⟨h.client f, rfl⟩
  exact h.of_client (fun f => (hflow f).1) (fun f => (hflow f).2.ge) hserver
    (fun f seq hm => Or.inl (hframes ▸ hm)) hsub

theorem written_serverRecv {cfg : Config} {s t : State} {i : Nat} (h : Written cfg s)
    (hstep : step cfg s (.serverRecv i) = some t) : Written cfg t := by
  rcases serverRecv_cases hstep with
    ⟨fid, seq, -, hmem, hflows, -, hframes, hclient, hacks, -⟩ |
    ⟨hflows, -, hframes, hclient, hacks, -⟩
  · refine
      { client := hclient ▸ h.client
        server := fun f => ?_
        frames := fun f n hm => hclient ▸ h.frames f n (hframes _ hm)
        acks := fun a ha => hclient ▸ h.acks a (hacks ▸ ha) }
    rw [hflows, hclient]
    by_cases hf : f = fid
    · rw [hf, Function.update_self]
      exact SrvFlow.within_recv (h.server fid) (h.frames fid seq hmem)
    · rw [Function.update_of_ne hf]
      exact h.server f
  · exact
      { client := hclient ▸ h.client
        server := fun f => by rw [hflows, hclient]; exact h.server f
        frames := fun f n hm => hclient ▸ h.frames f n (hframes _ hm)
        acks := fun a ha => hclient ▸ h.acks a (hacks ▸ ha) }

theorem written_serverAck {cfg : Config} {s t : State} (h : Written cfg s)
    (hguard : NeverAhead cfg s .serverAck) (hstep : step cfg s .serverAck = some t) :
    Written cfg t := by
  obtain ⟨hheard, hquiet, ⟨acks, hacks, -, hnum⟩, -, hclient, hframes, -⟩ := serverAck_cases hstep
  -- only a flow that was heard from advances, and by the guard not past what was written
  have hadv : ∀ f ∈ s.server.heard,
      (s.server.flows f).advance.Within (s.client.flows f).lastPktWritten :=
    fun f hf => SrvFlow.within_advance (h.server f) (hguard f hf)
  refine
    { client := hclient ▸ h.client
      server := fun f => ?_
      frames := fun f n hm => hclient ▸ h.frames f n (hframes ▸ hm)
      acks := fun a ha => ?_ }
  · rw [hclient]
    by_cases hf : f ∈ s.server.heard
    · rw [hheard f hf]
      exact ⟨(hadv f hf).nxt_lt, (hadv f hf).recorded, (hadv f hf).acked⟩
    · rw [hquiet f hf]
      exact h.server f
  · rw [hclient]
    rw [hacks] at ha
    rcases List.mem_append.mp ha with ha | ha
    · exact h.acks a ha
    · obtain ⟨hfid, heq⟩ := hnum a ha
      rw [heq]
      exact (hadv a.fid hfid).acked

theorem written_step {cfg : Config} {s t : State} {a : Act} (h : Written cfg s)
    (hguard : NeverAhead cfg s a) (hstep : step cfg s a = some t) : Written cfg t := by
  -- a fault of the network
  have hfault : (∃ f, a = .frameFault f) ∨ (∃ f, a = .ackFault f) → Written cfg t := by
    intro ha
    obtain ⟨hframes, hacks, hclient, hserver, -⟩ := fault_cases ha hstep
    exact h.of_client (hclient ▸ h.client) (fun f => by rw [hclient]) hserver
      (fun f seq hm => Or.inl (hframes _ hm)) hacks
  cases a with
  | client clock stamp =>
    obtain ⟨⟨c, frames⟩, hc, rfl⟩ := Option.map_eq_some_iff.mp hstep
    have hflow : ∀ f, _ := fun f =>
      client_step_inOrder (h.client f) (fun hpc hf => hguard hpc f hf) hc
    refine h.of_client (fun f => (hflow f).1) (fun f => (hflow f).2.1) rfl
      (fun f seq hm => ?_) fun _ ha => ha
    exact (List.mem_append.mp hm).imp id ((hflow f).2.2 seq)
  | clientRecv i => exact written_clientRecv h hstep
  | serverRecv i => exact written_serverRecv h hstep
  | serverAck => exact written_serverAck h hguard hstep
  | frameFault f => exact hfault (Or.inl ⟨f, rfl⟩)
  | ackFault f => exact hfault (Or.inr ⟨f, rfl⟩)

/-- The indices of every flow are in order in every state of a run in which nothing is given
    up before the sender has written it, and no window wraps. -/
theorem inOrder_of_neverAhead (cfg : Config) (acts : List Act)
    (h : (system cfg).Along (NeverAhead cfg) init acts) :
    (system cfg).Always (fun s => ∀ f, (s.client.flows f).InOrder cfg.numPing) init acts :=
  Lts.always_of_along (fun _ _ _ hs hg hstep => written_step hs hg hstep) (fun _ hs => hs.client)
    (written_init cfg) h

/-- One flow of one packet. -/
def onePacket : Config where
  flowNum := 1
  flowSize := 64
  ptrDiff := 8
  flowNum_le := one_le_MAX_FLOW_NUM
  flowSize_int := by decide

/-- The sender sends packet 1, which arrives in `n` bursts, and takes the last ack. -/
def burstsRun (n : Nat) : List Act :=
  List.replicate 6 (.client (fun _ => 0) fun _ => 0) ++
    List.replicate (n - 1) (.frameFault (.duplicate 0)) ++
    (List.replicate n [.serverRecv 0, .serverAck]).flatten ++ [.clientRecv (n - 1)]

/-- After one burst the packet is acked, and the indices are in order throughout. -/
theorem inOrder_of_neverAhead_one :
    (system onePacket).Always (fun s => ∀ f, (s.client.flows f).InOrder onePacket.numPing) init
      (burstsRun 1) :=
  inOrder_of_neverAhead onePacket (burstsRun 1) (by decide +kernel)

/-- After eleven bursts with packet 1 the receiver gives up packet 2, which does not exist:
    the sender takes an ack for two packets of one. -/
theorem acked_beyond_numPing :
    ∃ s, (system onePacket).Reachable init s ∧ s.client.pc = .recv ∧
      onePacket.numPing < (s.client.flows 0).lastPktAcked ∧
      (s.client.flows 0).lastPktWritten < (s.client.flows 0).lastPktSent :=
  ⟨((system onePacket).run init (burstsRun 11)).get (by decide +kernel),
    ⟨burstsRun 11, (Option.some_get _).symm⟩, by decide +kernel⟩

end Dpdk
end DatacenterNetworking
