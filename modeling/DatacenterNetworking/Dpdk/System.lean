/-
  DatacenterNetworking.Dpdk.System

  Sender and receiver joined by a network that may lose, duplicate, delay and
  reorder packets in both directions.

  A burst (`rte_eth_rx_burst`) is taken one packet at a time.  The runs are those of
  the two programs: neither sends while it works through a burst, so what the other
  does meanwhile could as well have happened before it.

  `received`, `givenUp` and `acksSent` are histories.  No step reads them.
-/

import DatacenterNetworking.Dpdk.Client
import DatacenterNetworking.Lib.Channel
import DatacenterNetworking.Lib.Lts

namespace DatacenterNetworking
namespace Dpdk

/-- Both programs, the packets in flight, and the history of the receiver. -/
structure State where
  client : Client
  server : Server
  frames : List Frame
  acks : List Ack
  /-- Flow and sequence number of every data packet the receiver took. -/
  received : List (Nat × Nat)
  /-- Flow and sequence number of every packet the receiver gave up. -/
  givenUp : List (Nat × Nat)
  acksSent : List Ack

/-- One step of one program, or a fault of the network. -/
inductive Act where
  | client (clock stamp : Nat → Nat)
  | clientRecv (i : Nat)
  | serverRecv (i : Nat)
  | serverAck
  | frameFault (f : Fault)
  | ackFault (f : Fault)

/-- What the history says of a received packet. -/
def Frame.log : Frame → List (Nat × Nat)
  | .data fid seq => [(fid, seq)]
  | .stop => []

/-- The transition function. -/
def step (cfg : Config) (s : State) : Act → Option State
  | .client clock stamp =>
      (s.client.step cfg clock stamp).map fun r =>
        { s with client := r.1, frames := s.frames ++ r.2 }
  | .clientRecv i =>
      (deliver s.acks i).bind fun r =>
        (s.client.recvAck r.1).map fun c => { s with client := c, acks := r.2 }
  | .serverRecv i =>
      (deliver s.frames i).bind fun r =>
        (s.server.recv r.1).map fun srv =>
          { s with server := srv, frames := r.2, received := r.1.log ++ s.received }
  | .serverAck =>
      (s.server.ackAll cfg.ptrDiff).map fun r =>
        { s with
          server := r.1
          acks := s.acks ++ r.2
          givenUp := s.server.givenUpBy ++ s.givenUp
          acksSent := r.2 ++ s.acksSent }
  | .frameFault f => (f.apply s.frames).map fun frames => { s with frames := frames }
  | .ackFault f => (f.apply s.acks).map fun acks => { s with acks := acks }

/-- The two programs and the network. -/
def system (cfg : Config) : Lts State Act where
  step := step cfg

/-- Both programs before their loops, nothing in flight. -/
def init : State where
  client := Client.init
  server := Server.init
  frames := []
  acks := []
  received := []
  givenUp := []
  acksSent := []

/-! ## What one step can do -/

section Steps

variable {cfg : Config} {s t : State}

/-- The receiver takes a data packet, or the packet that stops it. -/
theorem serverRecv_cases {i : Nat} (h : step cfg s (.serverRecv i) = some t) :
    (∃ fid seq, fid < MAX_FLOW_NUM ∧ Frame.data fid seq ∈ s.frames ∧
      t.server.flows =
        Function.update s.server.flows fid ((s.server.flows fid).recv seq) ∧
      t.received = (fid, seq) :: s.received ∧ (∀ x ∈ t.frames, x ∈ s.frames) ∧
      t.client = s.client ∧ t.acks = s.acks ∧ t.givenUp = s.givenUp ∧
      t.acksSent = s.acksSent) ∨
    (t.server.flows = s.server.flows ∧ t.received = s.received ∧
      (∀ x ∈ t.frames, x ∈ s.frames) ∧ t.client = s.client ∧ t.acks = s.acks ∧
      t.givenUp = s.givenUp ∧ t.acksSent = s.acksSent) := by
  obtain ⟨⟨frame, frames⟩, hdel, h⟩ := Option.bind_eq_some_iff.mp h
  obtain ⟨hmem, hsub⟩ := mem_of_deliver hdel
  obtain ⟨srv, hrecv, rfl⟩ := Option.map_eq_some_iff.mp h
  cases frame with
  | data fid seq =>
    rw [Server.recv] at hrecv
    split_ifs at hrecv with hgo
    cases hrecv
    exact Or.inl ⟨fid, seq, hgo.2.2, hmem, rfl, rfl, hsub, rfl, rfl, rfl, rfl⟩
  | stop =>
    rw [Server.recv] at hrecv
    split_ifs at hrecv
    cases hrecv
    exact Or.inr ⟨rfl, rfl, hsub, rfl, rfl, rfl, rfl⟩

/-- The receiver acks the flows it heard from. -/
theorem serverAck_cases (h : step cfg s .serverAck = some t) :
    (∀ f, f ∈ s.server.heard →
      t.server.flows f = { (s.server.flows f).advance with rcvd := false }) ∧
    (∀ f, f ∉ s.server.heard → t.server.flows f = s.server.flows f) ∧
    (∃ acks, t.acks = s.acks ++ acks ∧ t.acksSent = acks ++ s.acksSent ∧
      ∀ a ∈ acks, a.fid ∈ s.server.heard ∧
        a.recvAck = (s.server.flows a.fid).advance.ackNum) ∧
    t.givenUp = s.server.givenUpBy ++ s.givenUp ∧ t.client = s.client ∧
      t.frames = s.frames ∧ t.received = s.received := by
  obtain ⟨⟨srv, acks⟩, hack, rfl⟩ := Option.map_eq_some_iff.mp h
  rw [Server.ackAll] at hack
  split_ifs at hack
  cases hack
  refine ⟨fun f hf => if_pos hf, fun f hf => if_neg hf, ⟨_, rfl, rfl, fun a ha => ?_⟩,
    rfl, rfl, rfl, rfl⟩
  obtain ⟨f, hf, rfl⟩ := List.mem_map.mp ha
  exact ⟨hf, rfl⟩

/-- The sender takes an ack. -/
theorem clientRecv_cases {i : Nat} (h : step cfg s (.clientRecv i) = some t) :
    ∃ a ∈ s.acks, ∃ c, (s.client.flows a.fid).recv a.recvAck a.rxWin = some c ∧
      s.client.pc = .recv ∧ t.client = s.client.setFlow a.fid c ∧
      (∀ x ∈ t.acks, x ∈ s.acks) ∧ t.server = s.server ∧ t.frames = s.frames ∧
      t.received = s.received ∧ t.givenUp = s.givenUp ∧ t.acksSent = s.acksSent := by
  obtain ⟨⟨a, acks⟩, hdel, h⟩ := Option.bind_eq_some_iff.mp h
  obtain ⟨hmem, hsub⟩ := mem_of_deliver hdel
  obtain ⟨cl, hrecv, rfl⟩ := Option.map_eq_some_iff.mp h
  rw [Client.recvAck] at hrecv
  split_ifs at hrecv with hpc
  obtain ⟨c, hc, rfl⟩ := Option.map_eq_some_iff.mp hrecv
  exact ⟨a, hmem, c, hc, hpc.1, rfl, hsub, rfl, rfl, rfl, rfl, rfl⟩

/-- A fault touches only the packets in flight, and adds none. -/
theorem fault_cases {a : Act}
    (ha : (∃ f, a = .frameFault f) ∨ ∃ f, a = .ackFault f) (h : step cfg s a = some t) :
    (∀ x ∈ t.frames, x ∈ s.frames) ∧ (∀ x ∈ t.acks, x ∈ s.acks) ∧ t.client = s.client ∧
      t.server = s.server ∧ t.received = s.received ∧ t.givenUp = s.givenUp ∧
      t.acksSent = s.acksSent := by
  rcases ha with ⟨f, rfl⟩ | ⟨f, rfl⟩
  · obtain ⟨frames, hf, rfl⟩ := Option.map_eq_some_iff.mp h
    exact ⟨mem_of_fault hf, fun _ hx => hx, rfl, rfl, rfl, rfl, rfl⟩
  · obtain ⟨acks, hf, rfl⟩ := Option.map_eq_some_iff.mp h
    exact ⟨fun _ hx => hx, mem_of_fault hf, rfl, rfl, rfl, rfl, rfl⟩

end Steps

/-- What the sender's own steps do to its flows: the places of the loop, one by one. -/
theorem client_step_cases {cfg : Config} {clock stamp : Nat → Nat} {c c' : Client}
    {frames : List Frame} (h : c.step cfg clock stamp = some (c', frames)) :
    (c'.flows = c.flows ∧ (∀ fid seq, Frame.data fid seq ∉ frames) ∧
      (c'.pc = .done → c.repeats cfg = false)) ∨
    (∃ fid f seqs, fid < cfg.flowNum ∧ (c.flows fid).retransmit clock stamp = some (f, seqs) ∧
      c'.flows = Function.update c.flows fid f ∧ frames = seqs.map (.data fid) ∧
      c'.pc ≠ .done) ∨
    ((∀ f, c'.flows f = if f < cfg.flowNum then (c.flows f).populate cfg.numPing
        else c.flows f) ∧ frames = [] ∧ c'.pc ≠ .done) ∨
    (∃ fid f seqs, fid < cfg.flowNum ∧ (c.flows fid).send stamp = some (f, seqs) ∧
      c'.flows = Function.update c.flows fid f ∧ frames = seqs.map (.data fid) ∧
      c'.pc ≠ .done) := by
  unfold Client.step at h
  cases hpc : c.pc with
  | head =>
    simp only [hpc] at h
    split_ifs at h with hrep
    · cases h
      exact Or.inl ⟨rfl, fun _ _ => List.not_mem_nil, fun hd => by cases hd⟩
    · cases h
      exact Or.inl ⟨rfl, fun _ _ hm => by simp at hm, fun _ => by simpa using hrep⟩
  | retransmit fid =>
    simp only [hpc] at h
    split_ifs at h with hfid
    · obtain ⟨⟨f, seqs⟩, hr, heq⟩ := Option.map_eq_some_iff.mp h
      cases heq
      exact Or.inr (Or.inl ⟨fid, f, seqs, hfid, hr, rfl, rfl, fun hd => by cases hd⟩)
    · cases h
      exact Or.inl ⟨rfl, fun _ _ => List.not_mem_nil, fun hd => by cases hd⟩
  | populate =>
    simp only [hpc] at h
    cases h
    exact Or.inr (Or.inr (Or.inl ⟨fun _ => rfl, rfl, fun hd => by cases hd⟩))
  | send fid =>
    simp only [hpc] at h
    split_ifs at h with hfid
    · obtain ⟨⟨f, seqs⟩, hr, heq⟩ := Option.map_eq_some_iff.mp h
      cases heq
      exact Or.inr (Or.inr (Or.inr ⟨fid, f, seqs, hfid, hr, rfl, rfl, fun hd => by cases hd⟩))
    · cases h
      exact Or.inl ⟨rfl, fun _ _ => List.not_mem_nil, fun hd => by cases hd⟩
  | recv =>
    simp only [hpc] at h
    cases h
    exact Or.inl ⟨rfl, fun _ _ => List.not_mem_nil, fun hd => by cases hd⟩
  | done =>
    simp only [hpc] at h
    cases h

/-- The same for one flow: it is left alone, or the loop's work for it is done. -/
theorem client_flow_cases {cfg : Config} {clock stamp : Nat → Nat} {c c' : Client}
    {frames : List Frame} (h : c.step cfg clock stamp = some (c', frames)) (f : Nat) :
    c'.flows f = c.flows f ∨
    (∃ seqs, (c.flows f).retransmit clock stamp = some (c'.flows f, seqs)) ∨
    (f < cfg.flowNum ∧ c'.flows f = (c.flows f).populate cfg.numPing) ∨
    ∃ seqs, (c.flows f).send stamp = some (c'.flows f, seqs) := by
  rcases client_step_cases h with ⟨hf, -⟩ | ⟨fid, g, seqs, -, hr, hf, -⟩ | ⟨hf, -⟩ |
    ⟨fid, g, seqs, -, hr, hf, -⟩
  · exact Or.inl (congrFun hf f)
  · by_cases hfid : f = fid
    · rw [hf, hfid, Function.update_self]
      exact Or.inr (Or.inl ⟨seqs, hr⟩)
    · rw [hf, Function.update_of_ne hfid]
      exact Or.inl rfl
  · rw [hf]
    by_cases hfid : f < cfg.flowNum
    · rw [if_pos hfid]
      exact Or.inr (Or.inr (Or.inl ⟨hfid, rfl⟩))
    · rw [if_neg hfid]
      exact Or.inl rfl
  · by_cases hfid : f = fid
    · rw [hf, hfid, Function.update_self]
      exact Or.inr (Or.inr (Or.inr ⟨seqs, hr⟩))
    · rw [hf, Function.update_of_ne hfid]
      exact Or.inl rfl

end Dpdk
end DatacenterNetworking
