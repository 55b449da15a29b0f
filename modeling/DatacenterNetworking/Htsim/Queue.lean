/-
  DatacenterNetworking.Htsim.Queue

  What the queue disciplines share (`queue.h`, `queue.cpp`): the packet fields
  they read and the ECN mark a departing packet gets.
-/

import DatacenterNetworking.Htsim.DataPacket

namespace DatacenterNetworking
namespace Htsim

/-- The fields of `Packet` that a queue reads or writes: the flow it belongs to, its size
    in bytes, its id, and the flag `ECN_FWD`. -/
structure Packet where
  flow : Nat
  size : Nat
  id : Nat
  ecnFwd : Bool := false
  deriving DecidableEq, Repr

/-- `Queue::dctcpThreshold`. -/
def dctcpThreshold (bitrate : Nat) : Nat :=
  if bitrate ≤ 1000000000 then 10 * MSS_BYTES
  else if bitrate ≤ 10000000000 then 30 * MSS_BYTES
  else 90 * MSS_BYTES

/-- `Queue::applyEcnMark` (with `ENABLE_ECN` set). -/
def applyEcnMark (bitrate queuesize : Nat) (pkt : Packet) : Packet :=
  if dctcpThreshold bitrate < queuesize then { pkt with ecnFwd := true } else pkt

@[simp] theorem size_applyEcnMark (bitrate queuesize : Nat) (pkt : Packet) :
    (applyEcnMark bitrate queuesize pkt).size = pkt.size := by
  simp only [applyEcnMark]
  split_ifs
  · rfl
  · rfl

/-- Bytes of flow `f` among the packets. -/
def bytesOf (f : Nat) (pkts : List Packet) : Nat :=
  ((pkts.filter fun p => p.flow = f).map Packet.size).sum

@[simp] theorem bytesOf_nil (f : Nat) : bytesOf f [] = 0 := rfl

theorem bytesOf_append (f : Nat) (ps qs : List Packet) :
    bytesOf f (ps ++ qs) = bytesOf f ps + bytesOf f qs := by
  simp [bytesOf]

theorem bytesOf_singleton (f : Nat) (p : Packet) :
    bytesOf f [p] = if p.flow = f then p.size else 0 := by
  simp only [bytesOf]
  split_ifs with h <;> simp [h]

end Htsim
end DatacenterNetworking
