/-
  DatacenterNetworking.Dpdk.Reliability

  What an ack stands for.  The receiver moves `nxt_pkt_expcd` by two rules: over
  numbers recorded in the ring, which it has received, and over one number each
  time `same_ack` reaches ten, which it gives up.  `same_ack` counts the bursts
  that did not advance it since the last number given up, in a row or not.  So
  every ack number covers packets that were received or given up, over any run,
  with sequence numbers that may wrap.
-/

import DatacenterNetworking.Dpdk.System
import Mathlib.Data.Set.Basic

namespace DatacenterNetworking
namespace Dpdk

/-- Every packet `1..n` was received or given up. -/
def Covered (received givenUp : Set Nat) (n : Nat) : Prop :=
  ∀ k, 1 ≤ k → k ≤ n → k ∈ received ∨ k ∈ givenUp

theorem Covered.mono {R R' G G' : Set Nat} {n : Nat} (h : Covered R G n) (hR : R ⊆ R')
    (hG : G ⊆ G') : Covered R' G' n :=
  fun k hk hkn => (h k hk hkn).imp (fun hr => hR hr) (fun hg => hG hg)

/-! ## The receiver's half -/

/-- The ring holds received numbers only, and what the ack number covers was received or
    given up. -/
structure SrvFlow.Sound (R G : Set Nat) (s : SrvFlow) : Prop where
  nxt_lt : s.nxtPktExpcd < 2 ^ 32
  recorded : ∀ n, s.seqbuf n = 0 ∨ s.seqbuf n ∈ R
  covered : Covered R G s.ackNum

theorem SrvFlow.sound_init (R G : Set Nat) : SrvFlow.init.Sound R G where
  nxt_lt := by decide
  recorded := fun _ => Or.inl rfl
  covered := fun k hk hkn => by
    have hack : SrvFlow.init.ackNum = 0 := by decide
    omega

theorem SrvFlow.Sound.mono {R R' G G' : Set Nat} {s : SrvFlow} (h : s.Sound R G) (hR : R ⊆ R')
    (hG : G ⊆ G') : s.Sound R' G' where
  nxt_lt := h.nxt_lt
  recorded := fun n => (h.recorded n).imp id fun hn => hR hn
  covered := h.covered.mono hR hG

theorem SrvFlow.sound_recv {R R' G : Set Nat} {s : SrvFlow} {seq : Nat} (h : s.Sound R G)
    (hR : R ⊆ R') (hseq : seq ∈ R') : (s.recv seq).Sound R' G where
  nxt_lt := h.nxt_lt
  recorded := by
    intro n
    show (if s.nxtPktExpcd ≤ seq then Function.update s.seqbuf (slot seq) seq else s.seqbuf) n = 0 ∨
      (if s.nxtPktExpcd ≤ seq then Function.update s.seqbuf (slot seq) seq else s.seqbuf) n ∈ R'
    by_cases hge : s.nxtPktExpcd ≤ seq
    · rw [if_pos hge]
      by_cases hn : n = slot seq
      · rw [hn, Function.update_self]
        exact Or.inr hseq
      · rw [Function.update_of_ne hn]
        exact (h.recorded n).imp id fun hr => hR hr
    · rw [if_neg hge]
      exact (h.recorded n).imp id fun hr => hR hr
  covered := h.covered.mono hR (Set.Subset.refl G)

/-- Moving over a number that was received or given up. -/
theorem covered_succ {R G : Set Nat} {n : Nat} (hlt : n < 2 ^ 32) (h : Covered R G (pred32 n))
    (hn : n = 0 ∨ n ∈ R ∨ n ∈ G) : Covered R G (pred32 (succ32 n)) := by
  rw [pred32_succ32 hlt]
  intro k hk hkn
  rcases Nat.lt_or_ge k n with hlt' | hge
  · apply h k hk
    rw [pred32_of_pos (by omega) hlt]
    omega
  · -- `n` itself
    have hkeq : k = n := Nat.le_antisymm hkn hge
    rw [hkeq]
    exact hn.resolve_left (by omega)

/-- The scan passes received numbers only. -/
theorem SrvFlow.Sound.scanned {R G : Set Nat} {s : SrvFlow} (h : s.Sound R G) :
    s.scanned < 2 ^ 32 ∧ Covered R G (pred32 s.scanned) := by
  apply scan_induction (P := fun n => n < 2 ^ 32 ∧ Covered R G (pred32 n))
  · intro n hn hslot
    refine ⟨succ32_lt n, covered_succ hn.1 hn.2 ?_⟩
    have hrec := h.recorded (slot n)
    rw [hslot] at hrec
    exact hrec.imp id Or.inl
  · exact ⟨h.nxt_lt, h.covered⟩

theorem SrvFlow.sound_advance {R G G' : Set Nat} {s : SrvFlow} (h : s.Sound R G) (hG : G ⊆ G')
    (hgive : s.givesUp → s.scanned ∈ G') : s.advance.Sound R G' := by
  obtain ⟨hlt, hcov⟩ := h.scanned
  have hcov' := hcov.mono (Set.Subset.refl R) hG
  simp only [SrvFlow.advance]
  by_cases hg : s.givesUp
  · rw [if_pos hg]
    exact
      { nxt_lt := succ32_lt _
        recorded := h.recorded
        covered := covered_succ hlt hcov' (Or.inr (Or.inr (hgive hg))) }
  · rw [if_neg hg]
    exact
      { nxt_lt := hlt
        recorded := h.recorded
        covered := hcov' }

/-! ## Both programs -/

/-- The history of one flow. -/
def State.receivedOf (s : State) (f : Nat) : Set Nat := {k | (f, k) ∈ s.received}

def State.givenUpOf (s : State) (f : Nat) : Set Nat := {k | (f, k) ∈ s.givenUp}

theorem State.receivedOf_congr {s t : State} (h : t.received = s.received) :
    t.receivedOf = s.receivedOf := by
  unfold State.receivedOf
  rw [h]

theorem State.givenUpOf_congr {s t : State} (h : t.givenUp = s.givenUp) :
    t.givenUpOf = s.givenUpOf := by
  unfold State.givenUpOf
  rw [h]

/-- Everything that carries an ack number is sound: the receiver, the acks in flight, and
    the sender's `last_pkt_acked`. -/
structure AcksSound (cfg : Config) (s : State) : Prop where
  server : ∀ f, (s.server.flows f).Sound (s.receivedOf f) (s.givenUpOf f)
  sent : ∀ a ∈ s.acksSent, Covered (s.receivedOf a.fid) (s.givenUpOf a.fid) a.recvAck
  inFlight : ∀ a ∈ s.acks, a ∈ s.acksSent
  acked : ∀ f, Covered (s.receivedOf f) (s.givenUpOf f) (s.client.flows f).lastPktAcked
  done : s.client.pc = .done → s.client.repeats cfg = false

theorem acksSound_init (cfg : Config) : AcksSound cfg init where
  server := fun _ => SrvFlow.sound_init _ _
  sent := fun _ ha => absurd ha List.not_mem_nil
  inFlight := fun _ ha => absurd ha List.not_mem_nil
  acked := fun f k hk hkn => by
    have hacked : (init.client.flows f).lastPktAcked = 0 := rfl
    omega
  done := fun hd => by cases hd

/-- A larger history keeps what was covered. -/
theorem AcksSound.of_history {cfg : Config} {s t : State} (h : AcksSound cfg s)
    (hR : ∀ f, s.receivedOf f ⊆ t.receivedOf f) (hG : ∀ f, s.givenUpOf f ⊆ t.givenUpOf f)
    (hserver : ∀ f, (t.server.flows f).Sound (t.receivedOf f) (t.givenUpOf f))
    (hsent : ∀ a ∈ t.acksSent, a ∈ s.acksSent ∨
      Covered (t.receivedOf a.fid) (t.givenUpOf a.fid) a.recvAck)
    (hflight : ∀ a ∈ t.acks, a ∈ t.acksSent) (hclient : t.client = s.client) :
    AcksSound cfg t where
  server := hserver
  sent := fun a ha => (hsent a ha).elim
    (fun hs => (h.sent a hs).mono (hR a.fid) (hG a.fid)) id
  inFlight := hflight
  acked := fun f => by rw [hclient]; exact (h.acked f).mono (hR f) (hG f)
  done := by rw [hclient]; exact h.done

/-- A step of the network alone. -/
theorem AcksSound.of_network {cfg : Config} {s t : State} (h : AcksSound cfg s)
    (hacks : ∀ x ∈ t.acks, x ∈ s.acks) (hclient : t.client = s.client)
    (hserver : t.server.flows = s.server.flows) (hrecv : t.received = s.received)
    (hgive : t.givenUp = s.givenUp) (hsent : t.acksSent = s.acksSent) : AcksSound cfg t := by
  have hR := State.receivedOf_congr hrecv
  have hG := State.givenUpOf_congr hgive
  exact h.of_history (fun f => by rw [hR]) (fun f => by rw [hG])
    (fun f => by rw [hserver, hR, hG]; exact h.server f)
    (fun x hx => Or.inl (by rw [← hsent]; exact hx))
    (fun x hx => by rw [hsent]; exact h.inFlight x (hacks x hx)) hclient

/-- `last_pkt_acked` is untouched by the sender's own steps. -/
theorem lastPktAcked_step {cfg : Config} {clock stamp : Nat → Nat} {c c' : Client}
    {frames : List Frame} (h : c.step cfg clock stamp = some (c', frames)) (f : Nat) :
    (c'.flows f).lastPktAcked = (c.flows f).lastPktAcked := by
  rcases client_flow_cases h f with hf | ⟨seqs, hr⟩ | ⟨-, hf⟩ | ⟨seqs, hr⟩
  · rw [hf]
  · exact (retransmit_spec hr).1
  · rw [hf]
    rfl
  · exact (send_spec hr).1

theorem acksSound_step (cfg : Config) {s t : State} {a : Act} (h : AcksSound cfg s)
    (hstep : step cfg s a = some t) : AcksSound cfg t := by
  cases a with
  | client clock stamp =>
    obtain ⟨⟨c, frames⟩, hc, rfl⟩ := Option.map_eq_some_iff.mp hstep
    have hacked := lastPktAcked_step hc
    refine
      { server := h.server
        sent := h.sent
        inFlight := h.inFlight
        acked := fun f => by rw [hacked f]; exact h.acked f
        done := fun hd => ?_ }
    -- the loop ends only at its head, and changes no flow there
    rcases client_step_cases hc with ⟨hf, -, hrep⟩ | ⟨_, _, _, -, -, -, -, hpc⟩ |
      ⟨-, -, hpc⟩ | ⟨_, _, _, -, -, -, -, hpc⟩
    · exact (Client.repeats_congr hf).trans (hrep hd)
    · exact absurd hd hpc
    · exact absurd hd hpc
    · exact absurd hd hpc
  | clientRecv i =>
    obtain ⟨a, ha, c, hc, hpc, hclient, hsub, hserver, -, hrecv, hgive, hsent⟩ :=
      clientRecv_cases hstep
    have hcov := h.sent a (h.inFlight a ha)
    have hR := State.receivedOf_congr hrecv
    have hG := State.givenUpOf_congr hgive
    refine
      { server := by rw [hserver, hR, hG]; exact h.server
        sent := by rw [hsent, hR, hG]; exact h.sent
        inFlight := fun x hx => by rw [hsent]; exact h.inFlight x (hsub x hx)
        acked := fun f => ?_
        done := fun hd => ?_ }
    · -- the sender takes over what the ack covers
      rw [hR, hG, hclient]
      show Covered _ _ (Function.update s.client.flows a.fid c f).lastPktAcked
      by_cases hf : f = a.fid
      · rw [hf, Function.update_self]
        rcases (recv_spec hc).1 with ⟨heq, -⟩ | heq
        · rw [heq]
          exact hcov
        · rw [heq]
          exact h.acked a.fid
      · rw [Function.update_of_ne hf]
        exact h.acked f
    · rw [hclient] at hd
      replace hd : s.client.pc = .done := hd
      rw [hpc] at hd
      cases hd
  | serverRecv i =>
    rcases serverRecv_cases hstep with
      ⟨fid, seq, -, -, hflows, hrecv, -, hclient, hacks, hgive, hsent⟩ |
      ⟨hflows, hrecv, -, hclient, hacks, hgive, hsent⟩
    · -- one packet more is received, and may be recorded
      have hR : ∀ f, s.receivedOf f ⊆ t.receivedOf f := by
        intro f k hk
        show (f, k) ∈ t.received
        rw [hrecv]
        exact List.mem_cons_of_mem _ hk
      have hG := State.givenUpOf_congr hgive
      refine h.of_history hR (fun f => by rw [hG]) (fun f => ?_)
        (fun x hx => Or.inl (by rw [← hsent]; exact hx))
        (fun x hx => by rw [hsent]; rw [hacks] at hx; exact h.inFlight x hx) hclient
      rw [hflows, hG]
      by_cases hf : f = fid
      · rw [hf, Function.update_self]
        apply SrvFlow.sound_recv (h.server fid) (hR fid)
        show (fid, seq) ∈ t.received
        rw [hrecv]
        exact List.mem_cons_self
      · rw [Function.update_of_ne hf]
        exact (h.server f).mono (hR f) (Set.Subset.refl _)
    · have hsame : ∀ x ∈ t.acks, x ∈ s.acks := fun x hx => by
        rw [hacks] at hx
        exact hx
      exact h.of_network hsame hclient hflows hrecv hgive hsent
  | serverAck =>
    obtain ⟨hheard, hquiet, ⟨acks, hacks, hsent, hnum⟩, hgive, hclient, -, hrecv⟩ :=
      serverAck_cases hstep
    have hR := State.receivedOf_congr hrecv
    have hG : ∀ f, s.givenUpOf f ⊆ t.givenUpOf f := by
      intro f k hk
      show (f, k) ∈ t.givenUp
      rw [hgive]
      exact List.mem_append_right _ hk
    -- a flow that gives up is logged with the packet it gives up
    have hadv : ∀ f ∈ s.server.heard,
        (s.server.flows f).advance.Sound (t.receivedOf f) (t.givenUpOf f) := by
      intro f hf
      rw [hR]
      apply SrvFlow.sound_advance (h.server f) (hG f)
      intro hg
      show (f, _) ∈ t.givenUp
      rw [hgive]
      apply List.mem_append_left
      exact List.mem_map.mpr ⟨f, List.mem_filter.mpr ⟨hf, decide_eq_true hg⟩, rfl⟩
    refine h.of_history (fun f => by rw [hR]) hG (fun f => ?_) (fun x hx => ?_) (fun x hx => ?_)
      hclient
    · by_cases hf : f ∈ s.server.heard
      · rw [hheard f hf]
        exact { nxt_lt := (hadv f hf).nxt_lt
                recorded := (hadv f hf).recorded
                covered := (hadv f hf).covered }
      · rw [hquiet f hf, hR]
        exact (h.server f).mono (Set.Subset.refl _) (hG f)
    · -- the acks sent now carry the numbers just advanced
      rw [hsent] at hx
      rcases List.mem_append.mp hx with hx | hx
      · obtain ⟨hfid, heq⟩ := hnum x hx
        rw [heq]
        exact Or.inr (hadv x.fid hfid).covered
      · exact Or.inl hx
    · rw [hacks] at hx
      rw [hsent]
      rcases List.mem_append.mp hx with hx | hx
      · exact List.mem_append_right _ (h.inFlight x hx)
      · exact List.mem_append_left _ hx
  | frameFault f =>
    obtain ⟨-, hsub, hclient, hserver, hrecv, hgive, hsent⟩ :=
      fault_cases (Or.inl ⟨f, rfl⟩) hstep
    exact h.of_network hsub hclient (by rw [hserver]) hrecv hgive hsent
  | ackFault f =>
    obtain ⟨-, hsub, hclient, hserver, hrecv, hgive, hsent⟩ :=
      fault_cases (Or.inr ⟨f, rfl⟩) hstep
    exact h.of_network hsub hclient (by rw [hserver]) hrecv hgive hsent

/-- In every reachable state every ack number ever sent covers packets that the receiver
    had received or given up; so when the sender's loop has ended, each packet of each
    active flow was received or given up. -/
theorem acks_cover (cfg : Config) (s : State) (h : (system cfg).Reachable init s) :
    (∀ a ∈ s.acksSent, ∀ k, 1 ≤ k → k ≤ a.recvAck →
      (a.fid, k) ∈ s.received ∨ (a.fid, k) ∈ s.givenUp) ∧
    (s.client.pc = .done → ∀ f < cfg.flowNum, ∀ k, 1 ≤ k → k ≤ cfg.numPing →
      (f, k) ∈ s.received ∨ (f, k) ∈ s.givenUp) := by
  have hinv : AcksSound cfg s :=
    h.invariant (acksSound_init cfg) fun _ _ _ hs hstep => acksSound_step cfg hs hstep
  refine ⟨fun a ha => hinv.sent a ha, fun hd f hf k hk hkn => ?_⟩
  have hge := Client.repeats_eq_false (hinv.done hd) hf
  exact hinv.acked f k hk (hkn.trans hge)

/-! ## A run in which a packet is given up -/

/-- One flow of two packets. -/
def twoPackets : Config where
  flowNum := 1
  flowSize := 128
  ptrDiff := 8
  flowNum_le := one_le_MAX_FLOW_NUM
  flowSize_int := by decide

/-- The sender sends packets 1 and 2.  Packet 2 is lost, packet 1 is duplicated and arrives
    in eleven bursts; the ack of the last one reaches the sender. -/
def giveUpRun : List Act :=
  List.replicate 6 (.client (fun _ => 0) fun _ => 0) ++ [.frameFault (.lose 1)] ++
    List.replicate 10 (.frameFault (.duplicate 0)) ++
    (List.replicate 11 [.serverRecv 0, .serverAck]).flatten ++
    [.clientRecv 10, .client (fun _ => 0) fun _ => 0, .client (fun _ => 0) fun _ => 0]

/-- The state after that run satisfies the theorem: packet 2 was given up. -/
theorem acks_cover_giveUp :
    ∃ s, (system twoPackets).run init giveUpRun = some s ∧
      ((0, 2) ∈ s.received ∨ (0, 2) ∈ s.givenUp) :=
  ⟨((system twoPackets).run init giveUpRun).get (by decide +kernel), (Option.some_get _).symm,
    (acks_cover twoPackets _ ⟨giveUpRun, (Option.some_get _).symm⟩).2 (by decide +kernel) 0
      (by decide) 2 (by decide) (by decide)⟩

/-- An ack may cover a packet that the receiver never had: both packets are acked and the
    sender's loop has ended, but packet 2 was not received. -/
theorem acked_not_received :
    ∃ s, (system twoPackets).Reachable init s ∧
      (∃ a ∈ s.acksSent, a.fid = 0 ∧ a.recvAck = 2) ∧ s.client.pc = .done ∧
      twoPackets.numPing = 2 ∧ (0, 2) ∉ s.received :=
  ⟨((system twoPackets).run init giveUpRun).get (by decide +kernel),
    ⟨giveUpRun, (Option.some_get _).symm⟩, by decide +kernel⟩

end Dpdk
end DatacenterNetworking
