/-
  DatacenterNetworking.Htsim.AprxFairQueue

  `AprxFairQueue` (`aprx-fairqueue.cpp`): byte-by-byte round robin, approximated by a
  circle of FIFO queues.  A count-min sketch estimates the bytes a flow has sent, the
  estimate divided by `bytesPerRound` is the round of its next packet, and the packet
  goes to the FIFO that will be served in that round.

  The integers of the source wrap: `uint32_t` for the index of a FIFO and the bytes in
  one, `uint64_t` for sketch, rounds and bytes in all.  `_nPackets` counts objects in
  memory and is a plain number.

  The loop of `beginService` takes fuel; `nQueue` rounds of it are enough
  (`skip_spec` in `AprxCalendar`).
-/

import DatacenterNetworking.Htsim.StocFairQueue
import DatacenterNetworking.Lib.Calendar

namespace DatacenterNetworking
namespace Htsim

/-- `AFQcfg`, of `uint32_t`. -/
structure AFQcfg where
  nHash : Nat
  nBucket : Nat
  nQueue : Nat
  bytesPerRound : Nat
  nHash_pos : 1 ≤ nHash
  nBucket_pos : 1 ≤ nBucket
  nQueue_pos : 1 ≤ nQueue
  bytesPerRound_pos : 1 ≤ bytesPerRound
  nQueue_lt : nQueue < 2 ^ 32

/-- A stored packet.  `round` and `arrival` are its history: the round it was assigned, and
    how many packets were stored before it. -/
structure Queued where
  pkt : Packet
  round : Nat
  arrival : Nat
  deriving DecidableEq, Repr

/-- The flow of a stored packet. -/
def Queued.flow (e : Queued) : Nat := e.pkt.flow

/-- `AprxFairQueue`.  The front of a FIFO is its newest packet, its back the next to be
    served.  `pending` counts the completion events registered, `accepted` the packets
    stored. -/
structure AprxFairQueue where
  bitrate : Nat
  maxsize : Nat
  queuesize : Nat
  cfg : AFQcfg
  packets : Nat → List Queued
  Qsize : Nat → Nat
  sketch : Nat → Nat → Nat
  nRounds : Nat
  nPackets : Nat
  currQ : Nat
  pending : Nat
  accepted : Nat

namespace AprxFairQueue

/-- `ECN_MARK_ROUND`. -/
def ECN_MARK_ROUND : Nat := 8

/-- The constructor. -/
def new (bitrate maxsize : Nat) (cfg : AFQcfg) : AprxFairQueue where
  bitrate := bitrate
  maxsize := maxsize
  queuesize := 0
  cfg := cfg
  packets := fun _ => []
  Qsize := fun _ => 0
  sketch := fun _ _ => 0
  nRounds := 0
  nPackets := 0
  currQ := 0
  pending := 0
  accepted := 0

/-- `AprxFairQueue::hashFlow`, with the primes of `StocFairQueue::hashFlow`. -/
def hashFlow (index flowid : Nat) : Nat := StocFairQueue.hashFlow index flowid

/-- Subtraction on `uint64_t`. -/
def sub64 (a b : Nat) : Nat := (((a : ℤ) - b) % 2 ^ 64).toNat

/-- The bytes that the sketch has for a flow: the least of its cells. -/
def estimate (q : AprxFairQueue) (flowid : Nat) : Nat :=
  (List.range q.cfg.nHash).foldl
    (fun bytes i => min (q.sketch i (hashFlow i flowid % q.cfg.nBucket)) bytes) (2 ^ 64 - 1)

def flowRound (q : AprxFairQueue) (flowid : Nat) : Nat := q.estimate flowid / q.cfg.bytesPerRound

/-- The FIFO for a packet of round `flowRound`, or of the current round if that is later. -/
def outQ (q : AprxFairQueue) (flowRound : Nat) : Nat :=
  if flowRound ≤ q.nRounds then q.currQ
  else
    let outQ := (q.currQ + (flowRound - q.nRounds)) % 2 ^ 32
    if q.cfg.nQueue ≤ outQ then outQ - q.cfg.nQueue else outQ

/-- `bytes` after the packet: a flow that is behind is moved up to the current round. -/
def newBytes (q : AprxFairQueue) (pkt : Packet) : Nat :=
  let bytes := q.estimate pkt.flow
  let bytes :=
    if q.flowRound pkt.flow ≤ q.nRounds then
      max (q.nRounds * q.cfg.bytesPerRound % 2 ^ 64) bytes
    else bytes
  (bytes + pkt.size) % 2 ^ 64

/-- Every cell of a flow is raised to `bytes`. -/
def updateSketch (q : AprxFairQueue) (flowid bytes : Nat) : Nat → Nat → Nat :=
  fun i j =>
    if i < q.cfg.nHash ∧ j = hashFlow i flowid % q.cfg.nBucket then max (q.sketch i j) bytes
    else q.sketch i j

/-- The next round, with `_currQ` going round the FIFOs. -/
def nextRound (q : AprxFairQueue) : AprxFairQueue :=
  let currQ := (q.currQ + 1) % 2 ^ 32
  { q with
    currQ := if currQ = q.cfg.nQueue then 0 else currQ
    nRounds := (q.nRounds + 1) % 2 ^ 64 }

/-- The loop of `beginService`, up to the first FIFO that is not empty. -/
def skip : Nat → AprxFairQueue → Option AprxFairQueue
  | 0, _ => none
  | fuel + 1, q => if q.packets q.currQ = [] then skip fuel q.nextRound else some q

/-- `AprxFairQueue::beginService`. -/
def beginService (q : AprxFairQueue) : Option AprxFairQueue :=
  if 0 < q.nPackets then
    (skip q.cfg.nQueue q).map fun q' => { q' with pending := q'.pending + 1 }
  else some q

/-- Dequeue and book-keeping of `completeService`. -/
def dequeue (q : AprxFairQueue) (pkt : Packet) : AprxFairQueue :=
  { q with
    packets := Function.update q.packets q.currQ (q.packets q.currQ).dropLast
    Qsize := Function.update q.Qsize q.currQ
      (StocFairQueue.sub32 (q.Qsize q.currQ) pkt.size)
    queuesize := sub64 q.queuesize pkt.size
    nPackets := q.nPackets - 1
    pending := q.pending - 1 }

/-- The mark for a flow that is many rounds ahead. -/
def roundMark (q : AprxFairQueue) (pkt : Packet) : Packet :=
  if ECN_MARK_ROUND ≤ sub64 (q.flowRound pkt.flow) q.nRounds then { pkt with ecnFwd := true }
  else pkt

/-- `AprxFairQueue::completeService` up to its call of `beginService`, with the packet that
    departs, as stored and as sent.  There is nothing to complete unless a completion event
    was registered. -/
def finishService (q : AprxFairQueue) : Option (AprxFairQueue × Queued × Packet) :=
  if q.pending = 0 ∨ q.nPackets = 0 then none
  else match (q.packets q.currQ).getLast? with
    | none => none
    | some e =>
        let q' := q.dequeue e.pkt
        some (q', e, applyEcnMark q'.bitrate q'.queuesize (q'.roundMark e.pkt))

/-- `AprxFairQueue::completeService`.  What `sendOn` leads to elsewhere does not concern
    the queue. -/
def completeService (q : AprxFairQueue) : Option (AprxFairQueue × Queued × Packet) :=
  q.finishService.bind fun r => r.1.beginService.map fun q' => (q', r.2)

/-- Enqueue, and raise the sketch. -/
def store (q : AprxFairQueue) (pkt : Packet) : AprxFairQueue :=
  let outQ := q.outQ (q.flowRound pkt.flow)
  let entry : Queued :=
    { pkt := pkt, round := max q.nRounds (q.flowRound pkt.flow), arrival := q.accepted }
  { q with
    packets := Function.update q.packets outQ (entry :: q.packets outQ)
    Qsize := Function.update q.Qsize outQ ((q.Qsize outQ + pkt.size) % 2 ^ 32)
    queuesize := (q.queuesize + pkt.size) % 2 ^ 64
    nPackets := q.nPackets + 1
    sketch := q.updateSketch pkt.flow (q.newBytes pkt)
    accepted := q.accepted + 1 }

/-- Space for the packet, and its round not too far ahead. -/
def Accepts (q : AprxFairQueue) (pkt : Packet) : Prop :=
  (q.queuesize + pkt.size) % 2 ^ 64 ≤ q.maxsize ∧
    (q.nRounds < q.flowRound pkt.flow → q.flowRound pkt.flow - q.nRounds < q.cfg.nQueue)

instance (q : AprxFairQueue) (pkt : Packet) : Decidable (q.Accepts pkt) :=
  inferInstanceAs (Decidable (_ ∧ _))

/-- `AprxFairQueue::receivePacket`; `dropPacket` frees the packet. -/
def receivePacket (q : AprxFairQueue) (pkt : Packet) : Option AprxFairQueue :=
  if q.Accepts pkt then
    if q.nPackets = 0 then (q.store pkt).beginService else some (q.store pkt)
  else some q

/-! ## The queue as a system -/

/-- What drives the queue: a packet arrives, or a completion event fires. -/
inductive Act where
  | arrive (pkt : Packet)
  | complete

/-- The queue with what departed so far, as stored and as sent, in order. -/
structure State where
  q : AprxFairQueue
  departed : List (Queued × Packet)

/-- The queue under any sequence of arrivals and completions. -/
def system : Lts State Act where
  step
    | s, .arrive pkt => (s.q.receivePacket pkt).map fun q' => { s with q := q' }
    | s, .complete =>
        s.q.completeService.map fun r => { q := r.1, departed := s.departed ++ [r.2] }

/-- The system as constructed. -/
def init (bitrate maxsize : Nat) (cfg : AFQcfg) : State :=
  { q := new bitrate maxsize cfg, departed := [] }

end AprxFairQueue
end Htsim
end DatacenterNetworking
