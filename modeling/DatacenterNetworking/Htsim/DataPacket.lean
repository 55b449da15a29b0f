/-
  DatacenterNetworking.Htsim.DataPacket

  The packets the flow sources and sinks exchange (`datapacket.h`) and the
  simulator constants they share (`htsim.h`).

  Byte counts, sequence numbers and times are 64-bit in the source.  They are
  `Nat` here: none of them is reduced, except where a subtraction may go below
  zero, and that subtraction is `sub64`, and in `DataSink.processDataPacket64`.
  So what is shown of the sources and of flows is about runs in which sequence
  numbers, and times with a timeout added (`now + _rto`), stay below `2 ^ 64`: 213
  days of simulated time.
-/

import DatacenterNetworking.Lib.Lts

namespace DatacenterNetworking
namespace Htsim

/-- `MSS_BYTES`: maximum segment size in bytes. -/
def MSS_BYTES : Nat := 1500

/-- Counts of whole segments that differ do so by a segment. -/
theorem add_mss_le_of_dvd {m n : Nat} (hm : MSS_BYTES ∣ m) (hn : MSS_BYTES ∣ n) (hlt : m < n) :
    m + MSS_BYTES ≤ n := by
  obtain ⟨j, rfl⟩ := hm
  obtain ⟨k, rfl⟩ := hn
  have hjk : j + 1 ≤ k := Nat.lt_of_mul_lt_mul_left hlt
  calc MSS_BYTES * j + MSS_BYTES = MSS_BYTES * (j + 1) := (Nat.mul_succ _ _).symm
    _ ≤ MSS_BYTES * k := Nat.mul_le_mul_left _ hjk

/-- `simtime_picosec` of `us` microseconds (`timeFromUs` at a whole number). -/
def timeFromUs (us : Nat) : Nat := us * 1000000

/-- `MIN_RTO_US`, as a time. -/
def minRto : Nat := timeFromUs 200

/-- `INIT_RTO_US`, as a time. -/
def initRto : Nat := timeFromUs 2500

/-- A `uint32_t`. -/
def u32 (n : Nat) : Nat := n % 2 ^ 32

theorem u32_lt (n : Nat) : u32 n < 2 ^ 32 := Nat.mod_lt n (by decide)

/-- A `uint16_t`. -/
def u16 (n : Nat) : Nat := n % 2 ^ 16

/-- `llround`, of a value that is not negative. -/
def llround (x : Rat) : Nat := (x + 1 / 2).floor.toNat

/-- Subtraction of `uint64_t` values. -/
def sub64 (a b : Nat) : Nat := if b ≤ a then a - b else a + 2 ^ 64 - b

@[simp] theorem sub64_self (a : Nat) : sub64 a a = 0 := by
  rw [sub64, if_pos le_rfl, Nat.sub_self]

theorem sub64_add {a b : Nat} (hba : b ≤ a) : sub64 a b + b = a := by
  rw [sub64, if_pos hba, Nat.sub_add_cancel hba]

/-- `DataPacket`: `seqno` is the first byte carried.  The flags are those the sinks read. -/
structure DataPacket where
  seqno : Nat
  size : Nat
  ts : Nat
  ppFirst : Bool := false
  ecnFwd : Bool := false
  deriving DecidableEq, Repr

/-- `DataPacket::newpkt` and `set_ts`, as every source calls them. -/
def DataPacket.newpkt (seqno ts : Nat) : DataPacket := { seqno, size := MSS_BYTES, ts }

/-- `DataAck`: `ackno` acknowledges every byte up to it; `PacketPairSink` sends the
    packet-pair gap in `seqno`. -/
structure DataAck where
  seqno : Nat
  ackno : Nat
  ts : Nat
  ecnRev : Bool := false
  deriving DecidableEq, Repr

/-- Byte `b` is carried by the packet. -/
def DataPacket.Carries (p : DataPacket) (b : Nat) : Prop := p.seqno ≤ b ∧ b < p.seqno + p.size

/-- Byte `b` is carried by one of the packets. -/
def Covers (ps : List DataPacket) (b : Nat) : Prop := ∃ p ∈ ps, p.Carries b

/-- More packets cover more bytes. -/
theorem Covers.mono {ps qs : List DataPacket} {b : Nat} (h : Covers ps b)
    (hsub : ∀ p ∈ ps, p ∈ qs) : Covers qs b := by
  obtain ⟨p, hp, hb⟩ := h
  exact ⟨p, hsub p hp, hb⟩

end Htsim
end DatacenterNetworking
