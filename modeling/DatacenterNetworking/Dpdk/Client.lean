/-
  DatacenterNetworking.Dpdk.Client

  The sender (`Client/lab1-client.c`, `lcore_main`).  Each iteration of its loop
  retransmits what timed out, moves the write window, sends, and then takes the
  acks that arrived.

  The arrays indexed by flow are one `CliFlow` for each flow.  The latency and
  bandwidth statistics, and `buf` and `n_empty_buf`, which hold nothing, are left
  out.  A loop of the source that runs up to the largest `uint32_t` never ends:
  the step that contains it is `none`.
-/

import DatacenterNetworking.Dpdk.Server
import Mathlib.Data.List.Range

namespace DatacenterNetworking
namespace Dpdk

/-- `payload_len`. -/
def payloadLen : Int := 64

/-- `TIMEOUT_US`. -/
def TIMEOUT_US : Nat := 50

/-- The command line `./lab1-client <flow_num> <flow_size>`, and what the build fixes. -/
structure Config where
  flowNum : Nat
  flowSize : Int
  ptrDiff : Int
  /-- The arrays of both programs have `MAX_FLOW_NUM` rows. -/
  flowNum_le : flowNum ≤ MAX_FLOW_NUM
  /-- `flow_size` is an `int`. -/
  flowSize_int : -2 ^ 31 ≤ flowSize ∧ flowSize < 2 ^ 31

/-- `NUM_PING = flow_size / payload_len`, an `int` quotient stored in a `uint32_t`. -/
def Config.numPing (cfg : Config) : Nat := (cfg.flowSize.tdiv payloadLen % 2 ^ 32).toNat

/-- The sender's variables for one flow. -/
structure CliFlow where
  lastPktAcked : Nat
  lastPktSent : Nat
  lastPktWritten : Nat
  recvAck : Nat
  rcvWnd : Nat
  timeSent : Nat → Nat

/-- Where the sender is in its loop. -/
inductive CliPc where
  | head
  | retransmit (fid : Nat)
  | populate
  | send (fid : Nat)
  | recv
  | done
  deriving DecidableEq, Repr

/-- The sender: its flows and its place in the loop. -/
structure Client where
  flows : Nat → CliFlow
  pc : CliPc

namespace CliFlow

/-- As initialised before the loop. -/
def init : CliFlow where
  lastPktAcked := 0
  lastPktSent := 0
  lastPktWritten := 0
  recvAck := 0
  rcvWnd := BUF_SIZE
  timeSent := fun _ => 2 ^ 63

/-- `time_sent` after the packets `seqs` are stamped in order. -/
def stamped (timeSent : Nat → Nat) (clock : Nat → Nat) (seqs : List Nat) : Nat → Nat :=
  seqs.foldl (fun t i => Function.update t (slot i) (clock i)) timeSent

/-- The packets the retransmission loop looks at: from `last_pkt_acked + 1` to the smaller
    of `last_pkt_sent` and `last_pkt_written`. -/
def unacked (c : CliFlow) : List Nat :=
  List.range' (succ32 c.lastPktAcked)
    (min c.lastPktSent c.lastPktWritten + 1 - succ32 c.lastPktAcked)

/-- The packets that timed out, when `clock i` is the reading taken for packet `i`. -/
def timedOut (c : CliFlow) (clock : Nat → Nat) : List Nat :=
  c.unacked.filter fun i =>
    TIMEOUT_US * 1000 < (clock i + (2 ^ 64 - c.timeSent (slot i))) % 2 ^ 64

/-- One flow of the retransmission loop: the packets sent again. -/
def retransmit (c : CliFlow) (clock stamp : Nat → Nat) : Option (CliFlow × List Nat) :=
  -- `i <= last` holds of every `uint32_t`
  if min c.lastPktSent c.lastPktWritten = 2 ^ 32 - 1 then none
  else
    some ({ c with timeSent := stamped c.timeSent stamp (c.timedOut clock) }, c.timedOut clock)

/-- The write window: `min(NUM_PING, last_pkt_acked + BUF_SIZE)` on `uint32_t`. -/
def populate (c : CliFlow) (numPing : Nat) : CliFlow :=
  { c with
    lastPktWritten :=
      if numPing < (c.lastPktAcked + BUF_SIZE) % 2 ^ 32 then numPing
      else (c.lastPktAcked + BUF_SIZE) % 2 ^ 32 }

/-- The send loop; each round moves `last_pkt_sent` towards `last_pkt_written`, so `fuel` is
    their distance. -/
def sendLoop : Nat → CliFlow → CliFlow × List Nat
  | 0, c => (c, [])
  | fuel + 1, c =>
      if (c.lastPktSent + (2 ^ 32 - c.lastPktAcked)) % 2 ^ 32 < c.rcvWnd ∧
          c.lastPktSent < c.lastPktWritten then
        let r := sendLoop fuel { c with lastPktSent := c.lastPktSent + 1 }
        (r.1, (c.lastPktSent + 1) :: r.2)
      else (c, [])

/-- One flow of the send step: the packets sent.  The loop that stamps them does not end when
    the last one has the largest `uint32_t`. -/
def send (c : CliFlow) (stamp : Nat → Nat) : Option (CliFlow × List Nat) :=
  let r := sendLoop (c.lastPktWritten - c.lastPktSent) c
  if r.2 ≠ [] ∧ r.1.lastPktSent = 2 ^ 32 - 1 then none
  else some ({ r.1 with timeSent := stamped c.timeSent stamp r.2 }, r.2)

/-- An ack for the flow arrives. -/
def recv (c : CliFlow) (ack wnd : Nat) : Option CliFlow :=
  if c.lastPktAcked < ack then
    -- the loop over the packets just acked does not end
    if ack = 2 ^ 32 - 1 then none
    else
      some { c with
        recvAck := ack
        rcvWnd := wnd
        lastPktAcked := ack
        lastPktSent := if c.lastPktSent < ack then ack else c.lastPktSent }
  else some { c with recvAck := ack, rcvWnd := wnd }

end CliFlow

namespace Client

/-- Before the loop. -/
def init : Client where
  flows := fun _ => CliFlow.init
  pc := .head

/-- Some flow still has packets to be acked (`rpt`). -/
def repeats (cfg : Config) (c : Client) : Bool :=
  (List.range cfg.flowNum).any fun fid => (c.flows fid).lastPktAcked < cfg.numPing

/-- One flow replaced. -/
def setFlow (c : Client) (fid : Nat) (f : CliFlow) : Client :=
  { c with flows := Function.update c.flows fid f }

/-- The next step of the loop other than taking an ack, and the packets it sends.  `clock`
    and `stamp` are the readings of `raw_time_ns` before and after a transmission. -/
def step (cfg : Config) (clock stamp : Nat → Nat) (c : Client) : Option (Client × List Frame) :=
  match c.pc with
  | .head =>
      if c.repeats cfg then some ({ c with pc := .retransmit 0 }, [])
      else some ({ c with pc := .done }, [.stop])
  | .retransmit fid =>
      if fid < cfg.flowNum then
        ((c.flows fid).retransmit clock stamp).map fun r =>
          ({ c.setFlow fid r.1 with pc := .retransmit (fid + 1) }, r.2.map (.data fid))
      else some ({ c with pc := .populate }, [])
  | .populate =>
      some ({
        flows := fun fid =>
          if fid < cfg.flowNum then (c.flows fid).populate cfg.numPing else c.flows fid
        pc := .send 0 }, [])
  | .send fid =>
      if fid < cfg.flowNum then
        ((c.flows fid).send stamp).map fun r =>
          ({ c.setFlow fid r.1 with pc := .send (fid + 1) }, r.2.map (.data fid))
      else some ({ c with pc := .recv }, [])
  | .recv => some ({ c with pc := .head }, [])
  | .done => none

/-- The sender is done only if every packet of every flow is acked. -/
theorem repeats_eq_false {cfg : Config} {c : Client} (h : c.repeats cfg = false) {f : Nat}
    (hf : f < cfg.flowNum) : cfg.numPing ≤ (c.flows f).lastPktAcked := by
  have hacked := List.any_eq_false.mp h f (List.mem_range.mpr hf)
  simpa using hacked

theorem repeats_congr {cfg : Config} {c c' : Client} (h : c'.flows = c.flows) :
    c'.repeats cfg = c.repeats cfg := by
  simp only [repeats]
  rw [h]

/-- Take one ack of a burst.  Packets for unknown flows are dropped by `parse_packet`. -/
def recvAck (c : Client) (a : Ack) : Option Client :=
  if c.pc = .recv ∧ a.fid < MAX_FLOW_NUM then
    ((c.flows a.fid).recv a.recvAck a.rxWin).map fun f => c.setFlow a.fid f
  else none

end Client

/-! ## What one flow can do -/

section Flow

variable {c c' : CliFlow} {seqs : List Nat}

/-- The bounds of the retransmission loop. -/
theorem mem_unacked {i : Nat} (hi : i ∈ c.unacked) :
    succ32 c.lastPktAcked ≤ i ∧ i ≤ c.lastPktSent ∧ i ≤ c.lastPktWritten := by
  obtain ⟨k, hk, rfl⟩ := List.mem_range'.mp hi
  omega

/-- A retransmission changes no index, and sends only packets of the loop's range. -/
theorem retransmit_spec {clock stamp : Nat → Nat} (h : c.retransmit clock stamp = some (c', seqs)) :
    c'.lastPktAcked = c.lastPktAcked ∧ c'.lastPktSent = c.lastPktSent ∧
      c'.lastPktWritten = c.lastPktWritten ∧ ∀ i ∈ seqs, i ∈ c.unacked := by
  unfold CliFlow.retransmit at h
  split_ifs at h
  cases h
  exact ⟨rfl, rfl, rfl, fun i hi => (List.mem_filter.mp hi).1⟩

/-- The send loop sends the numbers it moves `last_pkt_sent` over. -/
theorem sendLoop_spec (fuel : Nat) (c : CliFlow) :
    (CliFlow.sendLoop fuel c).1.lastPktAcked = c.lastPktAcked ∧
      (CliFlow.sendLoop fuel c).1.lastPktWritten = c.lastPktWritten ∧
      c.lastPktSent ≤ (CliFlow.sendLoop fuel c).1.lastPktSent ∧
      ((CliFlow.sendLoop fuel c).1.lastPktSent ≤ c.lastPktWritten ∨
        (CliFlow.sendLoop fuel c).1.lastPktSent = c.lastPktSent) ∧
      ∀ i ∈ (CliFlow.sendLoop fuel c).2, c.lastPktSent + 1 ≤ i ∧ i ≤ c.lastPktWritten := by
  induction fuel generalizing c with
  | zero => exact ⟨rfl, rfl, le_rfl, Or.inr rfl, fun i hi => absurd hi List.not_mem_nil⟩
  | succ fuel ih =>
    rw [CliFlow.sendLoop]
    split_ifs with hgo
    · obtain ⟨hacked, hwritten, hle, hend, hmem⟩ :=
        ih { c with lastPktSent := c.lastPktSent + 1 }
      simp only at hacked hwritten hle hend hmem ⊢
      refine ⟨hacked, hwritten, by omega, by omega, fun i hi => ?_⟩
      rcases List.mem_cons.mp hi with rfl | hi
      · exact ⟨le_rfl, hgo.2⟩
      · have hbounds := hmem i hi
        omega
    · exact ⟨rfl, rfl, le_rfl, Or.inr rfl, fun i hi => absurd hi List.not_mem_nil⟩

theorem send_spec {stamp : Nat → Nat} (h : c.send stamp = some (c', seqs)) :
    c'.lastPktAcked = c.lastPktAcked ∧ c'.lastPktWritten = c.lastPktWritten ∧
      (c'.lastPktSent ≤ c.lastPktWritten ∨ c'.lastPktSent = c.lastPktSent) ∧
      ∀ i ∈ seqs, 1 ≤ i ∧ i ≤ c.lastPktWritten := by
  obtain ⟨hacked, hwritten, -, hend, hmem⟩ :=
    sendLoop_spec (c.lastPktWritten - c.lastPktSent) c
  simp only [CliFlow.send] at h
  split_ifs at h
  cases h
  refine ⟨hacked, hwritten, hend, fun i hi => ?_⟩
  have hbounds := hmem i hi
  omega

/-- The send loop has stopped when its fuel is spent. -/
theorem sendLoop_stops (fuel : Nat) (c : CliFlow) (h : c.lastPktWritten - c.lastPktSent ≤ fuel) :
    ¬ (((CliFlow.sendLoop fuel c).1.lastPktSent + (2 ^ 32 - c.lastPktAcked)) % 2 ^ 32 < c.rcvWnd ∧
      (CliFlow.sendLoop fuel c).1.lastPktSent < c.lastPktWritten) := by
  induction fuel generalizing c with
  | zero =>
    simp only [CliFlow.sendLoop]
    omega
  | succ fuel ih =>
    rw [CliFlow.sendLoop]
    split_ifs with hgo
    · exact ih { c with lastPktSent := c.lastPktSent + 1 } (by simp only; omega)
    · exact hgo

/-- An ack moves `last_pkt_acked` to its number or leaves it. -/
theorem recv_spec {ack wnd : Nat} (h : c.recv ack wnd = some c') :
    (c'.lastPktAcked = ack ∧ c.lastPktAcked < ack ∨ c'.lastPktAcked = c.lastPktAcked) ∧
      c'.lastPktWritten = c.lastPktWritten ∧
      (c'.lastPktSent = c.lastPktSent ∨ c'.lastPktSent = c'.lastPktAcked) := by
  unfold CliFlow.recv at h
  split_ifs at h with hnew hmax hdrag
  · cases h
    exact ⟨Or.inl ⟨rfl, hnew⟩, rfl, Or.inr rfl⟩
  · cases h
    exact ⟨Or.inl ⟨rfl, hnew⟩, rfl, Or.inl rfl⟩
  · cases h
    exact ⟨Or.inr rfl, rfl, Or.inl rfl⟩

end Flow

end Dpdk
end DatacenterNetworking
