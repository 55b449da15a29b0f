/-
  DatacenterNetworking.Dpdk.Server

  The receiver (`Server/lab1-server.c`, `lcore_main`).  Each iteration of its loop
  takes a burst of packets from the port, records their sequence numbers in the
  ring `seqbuf`, and then answers every flow it heard from with one ack.

  The arrays indexed by flow are one `SrvFlow` for each flow.  `last_pkt_read`,
  which only the debug output reads, is left out; the window in the acks is the
  difference of two array addresses (`last_pkt_recvd - last_pkt_read`), so a
  constant of the build, `ptrDiff`.
-/

import Mathlib.Algebra.Order.Ring.Nat
import Mathlib.Logic.Function.Basic

namespace DatacenterNetworking
namespace Dpdk

/-- `BUF_SIZE`. -/
def BUF_SIZE : Nat := 128

/-- `MAX_FLOW_NUM`. -/
def MAX_FLOW_NUM : Nat := 8

theorem one_le_MAX_FLOW_NUM : 1 ≤ MAX_FLOW_NUM := by decide

/-- `BURST_SIZE` of the server. -/
def BURST_SIZE : Nat := 1024

/-- `n + 1` and `n - 1` on `uint32_t`. -/
def succ32 (n : Nat) : Nat := (n + 1) % 2 ^ 32

def pred32 (n : Nat) : Nat := (n + (2 ^ 32 - 1)) % 2 ^ 32

/-- `(n - 1) % BUF_SIZE`: the slot of packet `n`. -/
def slot (n : Nat) : Nat := pred32 n % BUF_SIZE

/-- A data packet of `construct_pkt`: its flow and sequence number, or the packet with
    `STOP_FLOW_ID` that shuts the receiver down. -/
inductive Frame where
  | data (fid seq : Nat)
  | stop
  deriving DecidableEq, Repr

/-- A packet of `construct_ack`: flow, `recv_ack` and `rx_win`. -/
structure Ack where
  fid : Nat
  recvAck : Nat
  rxWin : Nat
  deriving DecidableEq, Repr

/-- The receiver's variables for one flow. -/
structure SrvFlow where
  nxtPktExpcd : Nat
  lastPktRecvd : Nat
  seqbuf : Nat → Nat
  sameAck : Nat
  rcvd : Bool

/-- The receiver: its flows, the packets taken in the current burst, and whether its loop
    still runs. -/
structure Server where
  flows : Nat → SrvFlow
  nRcvd : Nat
  running : Bool

namespace SrvFlow

/-- As initialised before the loop. -/
def init : SrvFlow where
  nxtPktExpcd := 1
  lastPktRecvd := 0
  seqbuf := fun _ => 0
  sameAck := 0
  rcvd := false

/-- Add a received packet to the buffer. -/
def recv (s : SrvFlow) (seq : Nat) : SrvFlow :=
  { s with
    rcvd := true
    seqbuf := if s.nxtPktExpcd ≤ seq then Function.update s.seqbuf (slot seq) seq else s.seqbuf
    lastPktRecvd := if s.lastPktRecvd < seq then seq else s.lastPktRecvd }

/-- The loop `while (seqbuf[(npe - 1) % BUF_SIZE] == npe) npe++`.  `BUF_SIZE` rounds visit
    every slot once, which is all it can do (`scan_stops`). -/
def scan (seqbuf : Nat → Nat) : Nat → Nat → Nat
  | 0, npe => npe
  | fuel + 1, npe => if seqbuf (slot npe) = npe then scan seqbuf fuel (succ32 npe) else npe

/-- `nxt_pkt_expcd` after the scan. -/
def scanned (s : SrvFlow) : Nat := scan s.seqbuf BUF_SIZE s.nxtPktExpcd

/-- `same_ack` (`uint8_t`) after the scan. -/
def sameAckNow (s : SrvFlow) : Nat :=
  if s.scanned = s.nxtPktExpcd then (s.sameAck + 1) % 256 else s.sameAck

/-- The tenth ack that does not advance: the packet waited for is given up.  The acks need not be
    in a row, since one that advances leaves `same_ack` as it is. -/
def givesUp (s : SrvFlow) : Prop := 10 ≤ s.sameAckNow

instance (s : SrvFlow) : Decidable s.givesUp := inferInstanceAs (Decidable (_ ≤ _))

/-- One round of the ack loop for a flow that was heard from, up to `construct_ack`. -/
def advance (s : SrvFlow) : SrvFlow :=
  if s.givesUp then
    -- what comes after the packet given up is not scanned before the next burst
    let npe := succ32 s.scanned
    { s with
      nxtPktExpcd := npe
      sameAck := 0
      lastPktRecvd := if s.lastPktRecvd < pred32 npe then pred32 npe else s.lastPktRecvd }
  else
    { s with nxtPktExpcd := s.scanned, sameAck := s.sameAckNow }

/-- The ack number sent for the flow. -/
def ackNum (s : SrvFlow) : Nat := pred32 s.nxtPktExpcd

end SrvFlow

namespace Server

/-- Before the loop. -/
def init : Server where
  flows := fun _ => SrvFlow.init
  nRcvd := 0
  running := true

/-- Take the next packet of a burst.  `STOP_FLOW_ID` ends the loop. -/
def recv (s : Server) : Frame → Option Server
  | .data fid seq =>
      if s.running ∧ s.nRcvd < BURST_SIZE ∧ fid < MAX_FLOW_NUM then
        some { s with
          flows := Function.update s.flows fid ((s.flows fid).recv seq)
          nRcvd := s.nRcvd + 1 }
      else none
  | .stop =>
      if s.running ∧ s.nRcvd < BURST_SIZE then some { s with running := false } else none

/-- The flows that are acked after a burst. -/
def heard (s : Server) : List Nat :=
  (List.range MAX_FLOW_NUM).filter fun fid => (s.flows fid).rcvd

/-- `wnd` of `construct_ack`: an `int` difference passed as `uint32_t` and stored in the
    16-bit field `rx_win`. -/
def window (ptrDiff : Int) : Nat := (((BUF_SIZE : Int) - ptrDiff) % 2 ^ 32 % 2 ^ 16).toNat

/-- The ack loop after a burst that was not empty, and the acks it sends.  The next
    iteration starts with `rcvd` cleared. -/
def ackAll (ptrDiff : Int) (s : Server) : Option (Server × List Ack) :=
  if s.running ∧ 0 < s.nRcvd then
    some ({ s with
        flows := fun fid =>
          if fid ∈ s.heard then { (s.flows fid).advance with rcvd := false } else s.flows fid
        nRcvd := 0 },
      s.heard.map fun fid => ⟨fid, (s.flows fid).advance.ackNum, window ptrDiff⟩)
  else none

/-- The packets given up in that loop: flow and sequence number. -/
def givenUpBy (s : Server) : List (Nat × Nat) :=
  (s.heard.filter fun fid => (s.flows fid).givesUp).map fun fid => (fid, (s.flows fid).scanned)

end Server

/-! ## Arithmetic of sequence numbers -/

theorem succ32_lt (n : Nat) : succ32 n < 2 ^ 32 := Nat.mod_lt _ (by decide)

theorem succ32_of_lt {n : Nat} (h : n + 1 < 2 ^ 32) : succ32 n = n + 1 := Nat.mod_eq_of_lt h

theorem pred32_succ32 {n : Nat} (h : n < 2 ^ 32) : pred32 (succ32 n) = n := by
  simp only [pred32, succ32]
  omega

theorem pred32_of_pos {n : Nat} (hpos : 1 ≤ n) (hlt : n < 2 ^ 32) : pred32 n = n - 1 := by
  simp only [pred32]
  omega

/-- Two numbers of one slot that are less than a ring apart are equal. -/
theorem eq_of_slot_eq {a b m : Nat} (ha : m ≤ a) (hb : m ≤ b) (ha' : a < m + BUF_SIZE)
    (hb' : b < m + BUF_SIZE) (hpos : 1 ≤ m) (hlt : m + BUF_SIZE ≤ 2 ^ 32)
    (hslot : slot a = slot b) : a = b := by
  unfold slot at hslot
  rw [pred32_of_pos (by omega) (by omega), pred32_of_pos (by omega) (by omega)] at hslot
  simp only [BUF_SIZE] at *
  omega

/-! ## The scan -/

/-- Everything the scan passes is recorded in its slot: a property that holds of the start
    and is handed from one recorded number to the next holds of the result. -/
theorem scan_induction {seqbuf : Nat → Nat} {P : Nat → Prop}
    (hstep : ∀ n, P n → seqbuf (slot n) = n → P (succ32 n)) (fuel n : Nat) (h : P n) :
    P (SrvFlow.scan seqbuf fuel n) := by
  induction fuel generalizing n with
  | zero => exact h
  | succ fuel ih =>
    rw [SrvFlow.scan]
    by_cases hslot : seqbuf (slot n) = n
    · rw [if_pos hslot]
      exact ih (succ32 n) (hstep n h hslot)
    · rw [if_neg hslot]
      exact h

/-- A scan that could still go on has passed one number for every unit of fuel. -/
theorem scan_reaches {seqbuf : Nat → Nat} (fuel n : Nat) (hn : n < 2 ^ 32)
    (hstuck : seqbuf (slot (SrvFlow.scan seqbuf fuel n)) = SrvFlow.scan seqbuf fuel n) :
    SrvFlow.scan seqbuf fuel n = (n + fuel) % 2 ^ 32 ∧
      ∀ k < fuel, seqbuf (slot ((n + k) % 2 ^ 32)) = (n + k) % 2 ^ 32 := by
  induction fuel generalizing n with
  | zero => exact ⟨(Nat.mod_eq_of_lt hn).symm, fun k hk => absurd hk (Nat.not_lt_zero k)⟩
  | succ fuel ih =>
    rw [SrvFlow.scan] at hstuck ⊢
    by_cases hslot : seqbuf (slot n) = n
    · rw [if_pos hslot] at hstuck ⊢
      obtain ⟨hval, hall⟩ := ih (succ32 n) (succ32_lt n) hstuck
      have hadd : ∀ k, (succ32 n + k) % 2 ^ 32 = (n + (k + 1)) % 2 ^ 32 := by
        intro k
        simp only [succ32]
        omega
      refine ⟨by rw [hval, hadd], fun k hk => ?_⟩
      cases k with
      | zero =>
        rw [Nat.add_zero, Nat.mod_eq_of_lt hn]
        exact hslot
      | succ k =>
        rw [← hadd]
        exact hall k (by omega)
    · rw [if_neg hslot] at hstuck
      exact absurd hstuck hslot

/-- The loop has stopped within one lap of the ring: it would otherwise find a slot that
    holds two numbers. -/
theorem scan_stops (s : SrvFlow) (hn : s.nxtPktExpcd < 2 ^ 32) :
    s.seqbuf (slot s.scanned) ≠ s.scanned := by
  intro hstuck
  obtain ⟨hval, hall⟩ := scan_reaches BUF_SIZE s.nxtPktExpcd hn hstuck
  have hfirst := hall 0 (by decide)
  rw [Nat.add_zero, Nat.mod_eq_of_lt hn] at hfirst
  replace hval : s.scanned = (s.nxtPktExpcd + 128) % 2 ^ 32 := hval
  have hslot : slot s.scanned = slot s.nxtPktExpcd := by
    rw [hval]
    simp only [slot, pred32, BUF_SIZE]
    omega
  rw [hslot, hfirst, hval] at hstuck
  omega

end Dpdk
end DatacenterNetworking
