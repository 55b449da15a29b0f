/-
  DatacenterNetworking.Dpdk.Burst

  One iteration of the receiver's loop on the packets as they come from the port:
  `rcvd_pkts` holds the addresses of their buffers, `verify_pkt` rejects what is
  not for this program, and `construct_ack` writes into a buffer of the pool.

  `rte_pktmbuf_alloc` returns any buffer the program does not hold.  A packet that
  was taken has been freed by then, so the buffer may be that of `rcvd_pkts[0]`,
  which `construct_ack` still reads.

  `rfid` is not initialised; a burst in which nothing verifies is taken to leave
  it different from `STOP_FLOW_ID`.
-/

import DatacenterNetworking.Dpdk.Wire
import DatacenterNetworking.Lib.Lts

namespace DatacenterNetworking
namespace Dpdk

/-- `STOP_FLOW_ID`. -/
def STOP_FLOW_ID : Nat := 100

/-- The ports of the flows, in the order both programs compare them, and what is returned. -/
def dataPorts : List (UInt16 × Nat) :=
  [(5001, 1), (5002, 2), (5003, 3), (5004, 4), (5005, 5), (5006, 6), (5007, 7), (5008, 8)]

/-- `verify_pkt` and `parse_packet` up to the ports they know: 0, or what the port returns. -/
def parseHeaders (ports : List (UInt16 × Nat)) (myEth : EtherAddr) (pkt : Mbuf) : Nat :=
  if myEth ≠ pkt.ether.dstAddr then 0
  else if RTE_ETHER_TYPE_IPV4 ≠ swap16 pkt.ether.etherType then 0
  else if IPPROTO_TCP ≠ pkt.ipv4.nextProtoId then 0
  else ports.foldl (fun ret port => if pkt.tcp.dstPort = swap16 port.1 then port.2 else ret) 0

/-- `verify_pkt`: 0, or the flow and one. -/
def verifyPkt (myEth : EtherAddr) (pkt : Mbuf) : Nat :=
  parseHeaders (dataPorts ++ [(5001 + 100, STOP_FLOW_ID + 1)]) myEth pkt

/-- `get_seq`. -/
def getSeq (pkt : Mbuf) : Nat := pkt.tcp.sentSeq.toNat

/-- The buffers of the pool by address. -/
abbrev Memory := Nat → Mbuf

/-- Write to the buffer at `a`. -/
def Memory.put (mem : Memory) (a : Nat) (f : Mbuf → Mbuf) : Memory :=
  Function.update mem a (f (mem a))

/-- `construct_ack` in memory, statement by statement: `pkt` is read after `ack` has been
    written to. -/
def constructAckAt (myEth : EtherAddr) (pkt ack : Nat) (fid : UInt8) (ackNum wnd : UInt32)
    (mem : Memory) : Memory :=
  -- the ethernet header
  let mem := mem.put ack fun a => { a with ether := { a.ether with srcAddr := myEth } }
  let ethSrc := (mem pkt).ether.srcAddr
  let mem := mem.put ack fun a => { a with ether := { a.ether with dstAddr := ethSrc } }
  let mem := mem.put ack fun a =>
    { a with ether := { a.ether with etherType := swap16 RTE_ETHER_TYPE_IPV4 } }
  -- the ipv4 header
  let mem := mem.put ack fun a =>
    { a with
      ipv4 :=
        { a.ipv4 with
          versionIhl := 0x45
          typeOfService := 0x0
          totalLength := swap16 (UInt16.ofNat (ipv4HdrSize + tcpHdrSize + ackLen))
          packetId := swap16 1
          fragmentOffset := 0
          timeToLive := 64
          nextProtoId := IPPROTO_TCP } }
  let ipDst := (mem pkt).ipv4.dstAddr
  let mem := mem.put ack fun a => { a with ipv4 := { a.ipv4 with srcAddr := ipDst } }
  let ipSrc := (mem pkt).ipv4.srcAddr
  let mem := mem.put ack fun a => { a with ipv4 := { a.ipv4 with dstAddr := ipSrc } }
  let mem := mem.put ack fun a => { a with ipv4 := a.ipv4.putChecksum }
  -- the tcp header, the payload and the lengths
  mem.put ack fun a =>
    { a with
      tcp :=
        { srcPort := swap16 (5001 + fid.toUInt16)
          dstPort := swap16 (5001 + fid.toUInt16)
          sentSeq := 0
          recvAck := ackNum
          dataOff := 0
          tcpFlags := 0
          rxWin := wnd.toUInt16
          cksum := 0
          tcpUrp := 0 }
      payload := List.replicate ackLen 0x61
      l2Len := etherHdrSize
      l3Len := ipv4HdrSize
      dataLen := etherHdrSize + ipv4HdrSize + tcpHdrSize + ackLen
      pktLen := etherHdrSize + ipv4HdrSize + tcpHdrSize + ackLen
      nbSegs := 1 }

/-- What one iteration takes from outside. -/
structure Burst where
  /-- The buffers when `rte_eth_rx_burst` returns. -/
  mem : Memory
  /-- `rcvd_pkts`. -/
  rcvdPkts : List Nat
  /-- The buffer `rte_pktmbuf_alloc` returns for the ack of a flow. -/
  alloc : Nat → Nat

/-- The receiver at the head of its loop. -/
structure Receiver where
  flows : Nat → SrvFlow
  lastPktRead : Nat → Nat
  running : Bool

/-- The station's address, and the layout of its stack frame. -/
structure Station where
  myEth : EtherAddr
  ptrDiff : Int

namespace Receiver

/-- Before the loop. -/
def init : Receiver where
  flows := fun _ => SrvFlow.init
  lastPktRead := fun _ => 0
  running := true

/-- The head of an iteration: what was received in order counts as read. -/
def readBuf (r : Receiver) : Receiver :=
  { r with
    flows := fun fid => { r.flows fid with rcvd := false }
    lastPktRead := fun fid => pred32 (r.flows fid).nxtPktExpcd }

/-- The loop over `rcvd_pkts`: the flows, the buffers that were freed, and whether a packet
    with `STOP_FLOW_ID` ended it. -/
def intake (myEth : EtherAddr) (mem : Memory) :
    List Nat → (Nat → SrvFlow) → (Nat → SrvFlow) × List Nat × Bool
  | [], flows => (flows, [], false)
  | p :: rest, flows =>
      let resp := verifyPkt myEth (mem p)
      if resp = 0 then intake myEth mem rest flows
      else if resp - 1 = STOP_FLOW_ID then (flows, [], true)
      else
        let flow := (flows (resp - 1)).recv (getSeq (mem p))
        let r := intake myEth mem rest (Function.update flows (resp - 1) flow)
        (r.1, p :: r.2.1, r.2.2)

/-- The ack loop: its flows, the memory, the buffers the program holds, and `snd_pkts` with
    the flow of each ack. -/
structure AckLoop where
  flows : Nat → SrvFlow
  mem : Memory
  held : List Nat
  sndPkts : List (Nat × Nat)

/-- One round of the ack loop for a flow that was heard from, when `rte_pktmbuf_alloc` returns
    the buffer `ack`.  The window is the difference of two arrays. -/
def ackRound (st : Station) (pkt ack : Nat) (s : AckLoop) (fid : Nat) : Option AckLoop :=
  if ack ∈ s.held then none
  else
    let flow := (s.flows fid).advance
    some {
      flows := Function.update s.flows fid flow
      mem := constructAckAt st.myEth pkt ack (UInt8.ofNat fid) (UInt32.ofNat flow.ackNum)
        (UInt32.ofInt (BUF_SIZE - st.ptrDiff)) s.mem
      held := ack :: s.held
      sndPkts := s.sndPkts ++ [(fid, ack)] }

/-- The rounds for the flows `fids`. -/
def ackLoop (st : Station) (pkt : Nat) (alloc : Nat → Nat) : List Nat → AckLoop → Option AckLoop
  | [], s => some s
  | fid :: rest, s =>
      (ackRound st pkt (alloc fid) s fid).bind fun s' => ackLoop st pkt alloc rest s'

/-- The flows that were heard from. -/
def heard (flows : Nat → SrvFlow) : List Nat :=
  (List.range MAX_FLOW_NUM).filter fun fid => (flows fid).rcvd

/-- One iteration: the receiver after it, and the frames handed to `rte_eth_tx_burst`, each
    with the flow it is for. -/
def iterate (st : Station) (r : Receiver) (b : Burst) : Option (Receiver × List (Nat × Mbuf)) :=
  if r.running ∧ b.rcvdPkts.length ≤ BURST_SIZE ∧ b.rcvdPkts.Nodup then
    let head := r.readBuf
    match b.rcvdPkts with
    | [] => some (head, [])
    | pkt :: _ =>
        let taken := intake st.myEth b.mem b.rcvdPkts head.flows
        if taken.2.2 then some ({ head with flows := taken.1, running := false }, [])
        else
          (ackLoop st pkt b.alloc (heard taken.1)
              ⟨taken.1, b.mem, b.rcvdPkts.filter fun p => p ∉ taken.2.1, []⟩).map fun s =>
            ({ head with flows := s.flows }, s.sndPkts.map fun a => (a.1, s.mem a.2))
  else none

/-- The loop of the receiver. -/
def system (st : Station) : Lts Receiver Burst where
  step := fun r b => (iterate st r b).map Prod.fst

end Receiver

/-! ## `construct_ack` in memory -/

/-- The packet `construct_ack` sees when it writes into the buffer it reads from. -/
def overwritten (myEth : EtherAddr) (pkt : Mbuf) : Mbuf :=
  { pkt with
    ether := { pkt.ether with srcAddr := myEth }
    ipv4 := { pkt.ipv4 with srcAddr := pkt.ipv4.dstAddr } }

/-- `construct_ack` writes the ack for the packet, or for what is left of it, and nothing else. -/
theorem constructAckAt_eq (myEth : EtherAddr) (pkt ack : Nat) (fid : UInt8) (ackNum wnd : UInt32)
    (mem : Memory) :
    constructAckAt myEth pkt ack fid ackNum wnd mem =
      Function.update mem ack
        (constructAck myEth (if ack = pkt then overwritten myEth (mem pkt) else mem pkt)
          (mem ack) fid ackNum wnd) := by
  by_cases h : ack = pkt
  · subst h
    simp only [constructAckAt, Memory.put, Function.update_self, Function.update_idem, if_true]
    rfl
  · simp only [constructAckAt, Memory.put, Function.update_self, Function.update_idem,
      Function.update_of_ne (Ne.symm h), if_neg h]
    rfl

namespace Receiver

/-! ## The loop over the burst -/

section Intake

variable {myEth : EtherAddr} {mem : Memory}

/-- The flows after a packet of flow `resp - 1` has been taken. -/
def takes (myEth : EtherAddr) (mem : Memory) (p : Nat) (flows : Nat → SrvFlow) : Nat → SrvFlow :=
  Function.update flows (verifyPkt myEth (mem p) - 1)
    ((flows (verifyPkt myEth (mem p) - 1)).recv (getSeq (mem p)))

theorem intake_cons (p : Nat) (rest : List Nat) (flows : Nat → SrvFlow) :
    intake myEth mem (p :: rest) flows =
      if verifyPkt myEth (mem p) = 0 then intake myEth mem rest flows
      else if verifyPkt myEth (mem p) - 1 = STOP_FLOW_ID then (flows, [], true)
      else
        ((intake myEth mem rest (takes myEth mem p flows)).1,
          p :: (intake myEth mem rest (takes myEth mem p flows)).2.1,
          (intake myEth mem rest (takes myEth mem p flows)).2.2) := rfl

/-- The loop is broken exactly when the burst holds a packet that stops the receiver. -/
theorem intake_stopped (rcvd : List Nat) (flows : Nat → SrvFlow) :
    (intake myEth mem rcvd flows).2.2 = true ↔
      ∃ p ∈ rcvd, verifyPkt myEth (mem p) = STOP_FLOW_ID + 1 := by
  induction rcvd generalizing flows with
  | nil => simp [intake]
  | cons p rest ih =>
    rw [intake_cons, List.exists_mem_cons_iff]
    split_ifs with hzero hstop
    · rw [ih, hzero]
      simp [STOP_FLOW_ID]
    · exact iff_of_true rfl (Or.inl (by omega))
    · rw [ih]
      exact ⟨Or.inr, fun h => h.resolve_left (by omega)⟩

/-- Otherwise the flows heard from are those with a packet in the burst. -/
theorem intake_rcvd (rcvd : List Nat) (flows : Nat → SrvFlow)
    (hrun : (intake myEth mem rcvd flows).2.2 = false) (f : Nat) :
    ((intake myEth mem rcvd flows).1 f).rcvd = true ↔
      (flows f).rcvd = true ∨ ∃ p ∈ rcvd, verifyPkt myEth (mem p) = f + 1 := by
  induction rcvd generalizing flows with
  | nil => simp [intake]
  | cons p rest ih =>
    rw [intake_cons] at hrun ⊢
    rw [List.exists_mem_cons_iff]
    split_ifs at hrun ⊢ with hzero hstop
    · rw [ih flows hrun, hzero]
      simp
    · rw [ih _ hrun]
      by_cases hf : f = verifyPkt myEth (mem p) - 1
      · have htaken : (takes myEth mem p flows f).rcvd = true := by
          rw [takes, hf, Function.update_self]
          rfl
        exact iff_of_true (Or.inl htaken) (Or.inr (Or.inl (by omega)))
      · rw [takes, Function.update_of_ne hf]
        have hne : verifyPkt myEth (mem p) ≠ f + 1 := by omega
        simp only [hne, false_or]

end Intake

/-! ## The ack loop -/

/-- Has the buffer of `pkt` been used for the ack of `f` or of a flow before it? -/
def reused (alloc : Nat → Nat) (pkt : Nat) (fids : List Nat) (f : Nat) : Bool :=
  fids.any fun g => g ≤ f ∧ alloc g = pkt

theorem reused_cons (alloc : Nat → Nat) (pkt g : Nat) (rest : List Nat) (f : Nat) :
    reused alloc pkt (g :: rest) f = (decide (g ≤ f ∧ alloc g = pkt) || reused alloc pkt rest f) :=
  rfl

/-- The source an ack is sent to: that of the first packet, or what an ack built in its buffer
    has left there. -/
def origin (myEth : EtherAddr) (pkt : Mbuf) (reused : Bool) : EtherAddr × UInt32 :=
  if reused then (myEth, pkt.ipv4.dstAddr) else (pkt.ether.srcAddr, pkt.ipv4.srcAddr)

/-- The frame of an ack for `f`. -/
structure IsAck (st : Station) (dest : EtherAddr × UInt32) (flow : SrvFlow) (frame : Mbuf) :
    Prop where
  dst : (frame.ether.dstAddr, frame.ipv4.dstAddr) = dest
  rxWin : frame.tcp.rxWin = (UInt32.ofInt (BUF_SIZE - st.ptrDiff)).toUInt16
  recvAck : frame.tcp.recvAck = UInt32.ofNat flow.advance.ackNum

/-- A round builds an ack in the buffer it gets, and touches nothing else in memory. -/
theorem ackRound_spec {st : Station} {pkt ack fid : Nat} {s t : AckLoop}
    (h : ackRound st pkt ack s fid = some t) :
    ack ∉ s.held ∧ t.flows = Function.update s.flows fid (s.flows fid).advance ∧
      t.held = ack :: s.held ∧ t.sndPkts = s.sndPkts ++ [(fid, ack)] ∧
      (∀ a, a ≠ ack → t.mem a = s.mem a) ∧
      IsAck st (origin st.myEth (s.mem pkt) (ack = pkt)) (s.flows fid) (t.mem ack) ∧
      (t.mem ack).ether.srcAddr = st.myEth ∧
      (t.mem ack).ipv4.srcAddr = (s.mem pkt).ipv4.dstAddr := by
  rw [ackRound] at h
  split_ifs at h with hheld
  have ht := (Option.some.inj h).symm
  have hframe : t.mem ack = constructAck st.myEth
      (if ack = pkt then overwritten st.myEth (s.mem pkt) else s.mem pkt) (s.mem ack)
      (UInt8.ofNat fid) (UInt32.ofNat (s.flows fid).advance.ackNum)
      (UInt32.ofInt (BUF_SIZE - st.ptrDiff)) := by
    rw [ht]
    simp only [constructAckAt_eq, Function.update_self]
  refine ⟨hheld, congrArg AckLoop.flows ht, congrArg AckLoop.held ht, congrArg AckLoop.sndPkts ht,
    fun a ha => ?_, ?_⟩
  · rw [ht]
    simp only [constructAckAt_eq, Function.update_of_ne ha]
  -- the first ack may be built in the buffer of the packet that it answers
  · rw [hframe]
    by_cases hpkt : ack = pkt
    · rw [if_pos hpkt, decide_eq_true hpkt]
      exact ⟨⟨rfl, rfl, rfl⟩, rfl, rfl⟩
    · rw [if_neg hpkt, decide_eq_false hpkt]
      exact ⟨⟨rfl, rfl, rfl⟩, rfl, rfl⟩

/-- What the ack loop leaves: for each flow of a sorted list the ack built in its buffer. -/
theorem ackLoop_spec {st : Station} {pkt : Nat} {alloc : Nat → Nat} (fids : List Nat)
    (hsorted : fids.Pairwise (· < ·)) {s t : AckLoop} (h : ackLoop st pkt alloc fids s = some t) :
    t.sndPkts = s.sndPkts ++ fids.map (fun f => (f, alloc f)) ∧
    (∀ a ∈ s.held, t.mem a = s.mem a) ∧
    (∀ f, t.flows f = if f ∈ fids then (s.flows f).advance else s.flows f) ∧
    ∀ f ∈ fids,
      IsAck st (origin st.myEth (s.mem pkt) (reused alloc pkt fids f)) (s.flows f)
        (t.mem (alloc f)) := by
  induction fids generalizing s with
  | nil =>
    cases h
    simp
  | cons fid rest ih =>
    obtain ⟨s₁, hround, hrest⟩ := Option.bind_eq_some_iff.mp h
    obtain ⟨hlt, hsorted'⟩ := List.pairwise_cons.mp hsorted
    obtain ⟨hheld, hflow, hheld₁, hsnd₁, hmem₁, hack, hmac, hip⟩ := ackRound_spec hround
    obtain ⟨hsnd, hmem, hflows, hacks⟩ := ih hsorted' hrest
    have hnot : fid ∉ rest := fun hin => lt_irrefl fid (hlt fid hin)
    -- the buffer of the first ack is held from now on
    have hkept : t.mem (alloc fid) = s₁.mem (alloc fid) :=
      hmem _ (hheld₁ ▸ List.mem_cons_self)
    refine ⟨?_, fun a ha => ?_, fun f => ?_, fun f hf => ?_⟩
    · rw [hsnd, hsnd₁, List.append_assoc]
      rfl
    · rw [hmem a (hheld₁ ▸ List.mem_cons_of_mem _ ha)]
      exact hmem₁ a fun heq => hheld (heq ▸ ha)
    · rw [hflows, hflow]
      by_cases hfid : f = fid
      · subst hfid
        simp [hnot]
      · simp [hfid]
    · rcases List.mem_cons.mp hf with hfid | hfrest
      · -- no later flow comes before the first
        have hreused : reused alloc pkt (fid :: rest) fid = decide (alloc fid = pkt) := by
          have hlater : reused alloc pkt rest fid = false := by
            refine List.any_eq_false.mpr fun g hg => ?_
            have hg' := hlt g hg
            simp only [decide_eq_true_eq]
            omega
          rw [reused_cons, hlater]
          simp
        rw [hfid, hkept, hreused]
        exact hack
      · have hfid := hlt f hfrest
        have hack' := hacks f hfrest
        rw [hflow, Function.update_of_ne (by omega)] at hack'
        have hreused : reused alloc pkt (fid :: rest) f =
            (decide (alloc fid = pkt) || reused alloc pkt rest f) := by
          rw [reused_cons]
          simp [hfid.le]
        rw [hreused]
        by_cases hpkt : alloc fid = pkt
        · -- the first packet has become the first ack
          have hleft : origin st.myEth (s₁.mem pkt) (reused alloc pkt rest f) =
              (st.myEth, (s.mem pkt).ipv4.dstAddr) := by
            have hdst := hack.dst
            rw [decide_eq_true hpkt] at hdst
            rw [← hpkt] at hdst hip ⊢
            rw [origin]
            split_ifs
            · rw [(Prod.mk.inj hdst).2]
            · rw [hmac, hip]
          rw [decide_eq_true hpkt, Bool.true_or]
          rw [hleft] at hack'
          exact hack'
        · rw [decide_eq_false hpkt, Bool.false_or]
          rw [hmem₁ pkt (Ne.symm hpkt)] at hack'
          exact hack'

end Receiver

/-! ## One iteration -/

/-- The burst holds a packet that stops the receiver. -/
def Burst.Stops (myEth : EtherAddr) (b : Burst) : Prop :=
  ∃ p ∈ b.rcvdPkts, verifyPkt myEth (b.mem p) = STOP_FLOW_ID + 1

/-- The burst holds a data packet of the flow that verifies. -/
def Burst.Hears (myEth : EtherAddr) (b : Burst) (f : Nat) : Prop :=
  f < MAX_FLOW_NUM ∧ ∃ p ∈ b.rcvdPkts, verifyPkt myEth (b.mem p) = f + 1

/-- The flows when the burst has been taken in. -/
def Burst.taken (myEth : EtherAddr) (r : Receiver) (b : Burst) : Nat → SrvFlow :=
  (Receiver.intake myEth b.mem b.rcvdPkts r.readBuf.flows).1

namespace Receiver

theorem mem_heard_taken {myEth : EtherAddr} {r : Receiver} {b : Burst} (h : ¬ b.Stops myEth)
    (f : Nat) : f ∈ heard (b.taken myEth r) ↔ b.Hears myEth f := by
  have hrun : (intake myEth b.mem b.rcvdPkts r.readBuf.flows).2.2 = false :=
    Bool.eq_false_iff.mpr fun hstop => h ((intake_stopped _ _).mp hstop)
  rw [heard, List.mem_filter, List.mem_range, Burst.taken, intake_rcvd _ _ hrun]
  simp [readBuf, Burst.Hears]

/-- An iteration either sends nothing, or one ack for each flow heard from. -/
theorem iterate_spec {st : Station} {r t : Receiver} {b : Burst} {acks : List (Nat × Mbuf)}
    (h : iterate st r b = some (t, acks)) :
    t.lastPktRead = (fun fid => pred32 (r.flows fid).nxtPktExpcd) ∧
    ((acks = [] ∧ (b.rcvdPkts = [] ∨ b.Stops st.myEth)) ∨
      ∃ pkt rest, b.rcvdPkts = pkt :: rest ∧ ¬ b.Stops st.myEth ∧
        acks.map Prod.fst = heard (b.taken st.myEth r) ∧
        (∀ f, t.flows f =
          if f ∈ heard (b.taken st.myEth r) then (b.taken st.myEth r f).advance
          else b.taken st.myEth r f) ∧
        ∀ a ∈ acks,
          IsAck st
            (origin st.myEth (b.mem pkt) (reused b.alloc pkt (heard (b.taken st.myEth r)) a.1))
            (b.taken st.myEth r a.1) a.2) := by
  rw [iterate] at h
  split_ifs at h with hgo
  -- an empty burst and a burst with a stop packet end the iteration without acks
  cases hrcvd : b.rcvdPkts with
  | nil =>
    simp only [hrcvd] at h
    cases h
    exact ⟨rfl, Or.inl ⟨rfl, Or.inl rfl⟩⟩
  | cons pkt rest =>
    simp only [hrcvd] at h
    rw [← hrcvd] at h
    split_ifs at h with hstop
    · cases h
      exact ⟨rfl, Or.inl ⟨rfl, Or.inr ((intake_stopped _ _).mp hstop)⟩⟩
    · obtain ⟨s, hloop, heq⟩ := Option.map_eq_some_iff.mp h
      cases heq
      have hsorted : (heard (b.taken st.myEth r)).Pairwise (· < ·) :=
        List.pairwise_lt_range.filter _
      obtain ⟨hsnd, -, hflows, hacks⟩ := ackLoop_spec _ hsorted hloop
      simp only [List.nil_append] at hsnd hacks
      refine ⟨rfl, Or.inr ⟨pkt, rest, rfl, fun hs => hstop ((intake_stopped _ _).mpr hs), ?_,
        hflows, fun a ha => ?_⟩⟩
      · rw [hsnd, List.map_map, List.map_map]
        exact List.map_id _
      · rw [hsnd, List.map_map] at ha
        obtain ⟨f, hf, rfl⟩ := List.mem_map.mp ha
        exact hacks f hf

end Receiver

/-! ## The receiver on frames -/

theorem parseHeaders_mem (ports : List (UInt16 × Nat)) (myEth : EtherAddr) (pkt : Mbuf) :
    parseHeaders ports myEth pkt ∈ 0 :: ports.map Prod.snd := by
  have hfold : ∀ (ret : Nat),
      (ports.foldl (fun ret port => if pkt.tcp.dstPort = swap16 port.1 then port.2 else ret) ret) ∈
        ret :: ports.map Prod.snd := by
    induction ports with
    | nil => simp
    | cons port rest ih =>
      intro ret
      rw [List.foldl_cons, List.map_cons]
      split_ifs
      · exact List.mem_cons_of_mem _ (ih port.2)
      · rcases List.mem_cons.mp (ih ret) with hret | hrest
        · rw [hret]
          exact List.mem_cons_self
        · exact List.mem_cons_of_mem _ (List.mem_cons_of_mem _ hrest)
  rw [parseHeaders]
  split_ifs
  · exact List.mem_cons_self
  · exact List.mem_cons_self
  · exact List.mem_cons_self
  · exact hfold 0

/-- What `verify_pkt` can return. -/
theorem verifyPkt_range (myEth : EtherAddr) (pkt : Mbuf) :
    verifyPkt myEth pkt ≤ MAX_FLOW_NUM ∨ verifyPkt myEth pkt = STOP_FLOW_ID + 1 := by
  have hvalues : ∀ n ∈ 0 :: (dataPorts ++ [(5001 + 100, STOP_FLOW_ID + 1)]).map Prod.snd,
      n ≤ MAX_FLOW_NUM ∨ n = STOP_FLOW_ID + 1 := by
    decide
  exact hvalues _ (parseHeaders_mem _ myEth pkt)

/-- A packet as the receiver on frames takes it. -/
def frameOf (myEth : EtherAddr) (pkt : Mbuf) : Option Frame :=
  match verifyPkt myEth pkt with
  | 0 => none
  | resp + 1 => some (if resp = STOP_FLOW_ID then .stop else .data resp (getSeq pkt))

/-- The window of `construct_ack` on the wire. -/
theorem toNat_window (d : Int) :
    (UInt32.ofInt (BUF_SIZE - d)).toUInt16.toNat = Server.window d := by
  rw [UInt32.toNat_toUInt16, UInt32.ofInt, UInt32.toNat_ofNat', Server.window]
  omega

namespace Receiver

/-- Without a packet that stops it, the loop takes the frames of the burst one by one. -/
theorem intake_eq_recv {myEth : EtherAddr} {mem : Memory} (rcvd : List Nat) (s : Server)
    (hrun : s.running = true) (hroom : s.nRcvd + rcvd.length ≤ BURST_SIZE)
    (hgo : (intake myEth mem rcvd s.flows).2.2 = false) :
    ∃ s₁, (rcvd.filterMap fun p => frameOf myEth (mem p)).foldlM Server.recv s = some s₁ ∧
      s₁.flows = (intake myEth mem rcvd s.flows).1 ∧ s₁.running = true ∧
      s₁.nRcvd = s.nRcvd + (rcvd.filterMap fun p => frameOf myEth (mem p)).length := by
  -- along the burst: what is left of it fits in the room that is left
  induction rcvd generalizing s with
  | nil => exact ⟨s, rfl, rfl, hrun, rfl⟩
  | cons p rest ih =>
    rw [List.length_cons] at hroom
    rw [intake_cons] at hgo ⊢
    rw [List.filterMap_cons]
    split_ifs at hgo ⊢ with hzero hstop
    -- a packet that does not verify is no frame of the abstract receiver
    · rw [frameOf, hzero]
      exact ih s hrun (by omega) hgo
    · obtain ⟨resp, hresp⟩ : ∃ resp, verifyPkt myEth (mem p) = resp + 1 :=
        ⟨verifyPkt myEth (mem p) - 1, by omega⟩
      have hfid : resp < MAX_FLOW_NUM := by
        have hrange := verifyPkt_range myEth (mem p)
        omega
      have hframe : frameOf myEth (mem p) = some (.data resp (getSeq (mem p))) := by
        rw [frameOf, hresp]
        exact congrArg some (if_neg (by omega))
      have hrecv : s.recv (.data resp (getSeq (mem p))) =
          some { s with flows := takes myEth mem p s.flows, nRcvd := s.nRcvd + 1 } := by
        rw [Server.recv, if_pos ⟨hrun, by omega, hfid⟩, takes, hresp, Nat.add_sub_cancel]
      obtain ⟨s₁, hfold, hflows, hrun₁, hcount⟩ :=
        ih { s with flows := takes myEth mem p s.flows, nRcvd := s.nRcvd + 1 } hrun
          (by simp only; omega) hgo
      simp only [hframe]
      refine ⟨s₁, ?_, hflows, hrun₁, ?_⟩
      · rw [List.foldlM_cons, hrecv]
        exact hfold
      · rw [hcount, List.length_cons]
        simp only
        omega

/-- A burst with a data packet is, to the receiver on frames, its frames and one ack loop. -/
theorem iterate_eq_ackAll {st : Station} {r t : Receiver} {b : Burst} {acks : List (Nat × Mbuf)}
    (h : iterate st r b = some (t, acks)) (hstop : ¬ b.Stops st.myEth) {f : Nat}
    (hf : b.Hears st.myEth f) {s : Server} (hflows : s.flows = r.readBuf.flows)
    (hrun : s.running = true) (hnone : s.nRcvd = 0) :
    ∃ s₁ s₂,
      (b.rcvdPkts.filterMap fun p => frameOf st.myEth (b.mem p)).foldlM Server.recv s = some s₁ ∧
      s₁.ackAll st.ptrDiff =
        some (s₂, acks.map fun a => ⟨a.1, a.2.tcp.recvAck.toNat, a.2.tcp.rxWin.toNat⟩) ∧
      ∀ g, s₂.flows g = { t.flows g with rcvd := false } := by
  have hroom : b.rcvdPkts.length ≤ BURST_SIZE := by
    rw [iterate] at h
    split_ifs at h with hgo
    exact hgo.2.1
  have hgo : (intake st.myEth b.mem b.rcvdPkts s.flows).2.2 = false :=
    Bool.eq_false_iff.mpr fun hs => hstop ((intake_stopped _ _).mp hs)
  obtain ⟨s₁, hfold, htaken, hrun₁, hcount⟩ := intake_eq_recv _ s hrun (by omega) hgo
  rw [hflows] at htaken
  obtain ⟨-, ⟨-, hquiet⟩ | ⟨pkt, rest, -, -, hfids, hflows', hacks⟩⟩ := iterate_spec h
  · obtain ⟨-, p, hp, -⟩ := hf
    rcases hquiet with hnil | hs
    · rw [hnil] at hp
      cases hp
    · exact absurd hs hstop
  · have hheard : s₁.heard = heard (b.taken st.myEth r) := by
      rw [Server.heard, htaken]
      rfl
    -- the packet that `f` is heard from was taken, so the ack loop is reached
    have hpos : 0 < s₁.nRcvd := by
      obtain ⟨-, p, hp, hresp⟩ := hf
      have hframe : (frameOf st.myEth (b.mem p)).isSome := by
        rw [frameOf, hresp]
        rfl
      obtain ⟨frame, hframe⟩ := Option.isSome_iff_exists.mp hframe
      have hmem : frame ∈ b.rcvdPkts.filterMap fun p => frameOf st.myEth (b.mem p) :=
        List.mem_filterMap.mpr ⟨p, hp, hframe⟩
      have hlen := List.length_pos_of_mem hmem
      omega
    refine ⟨s₁,
      { s₁ with
        flows := fun fid =>
          if fid ∈ s₁.heard then { (s₁.flows fid).advance with rcvd := false } else s₁.flows fid
        nRcvd := 0 },
      hfold, ?_, fun g => ?_⟩
    · rw [Server.ackAll, if_pos ⟨hrun₁, hpos⟩, hheard, ← hfids, List.map_map]
      refine congrArg some (Prod.ext rfl (List.map_congr_left fun a ha => ?_))
      have hnum : (b.taken st.myEth r a.1).advance.ackNum < 2 ^ 32 := Nat.mod_lt _ (by decide)
      rw [Function.comp_apply, (hacks a ha).rxWin, toNat_window, (hacks a ha).recvAck,
        UInt32.toNat_ofNat', Nat.mod_eq_of_lt hnum, htaken]
      rfl
    · rw [hflows' g]
      simp only [hheard, htaken]
      by_cases hg : g ∈ heard (b.taken st.myEth r)
      · rw [if_pos hg, if_pos hg]
        rfl
      · -- a flow that was not heard from has its flag clear
        have hclear : (b.taken st.myEth r g).rcvd = false := by
          refine Bool.eq_false_iff.mpr fun hset => hg ((mem_heard_taken hstop g).mpr ?_)
          rw [hflows] at hgo
          rcases (intake_rcvd _ _ hgo g).mp hset with hold | ⟨p, hp, hresp⟩
          · cases hold
          · refine ⟨?_, p, hp, hresp⟩
            rcases verifyPkt_range st.myEth (b.mem p) with hle | hs
            · omega
            · exact absurd ⟨p, hp, hs⟩ hstop
        rw [if_neg hg, if_neg hg, ← hclear]
        rfl

end Receiver

end Dpdk
end DatacenterNetworking
