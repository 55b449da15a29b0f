/-
  DatacenterNetworking.Dpdk.Host

  The two programs on a host of either byte order, on the frames as bytes.  Each
  program lays a frame out field by field, and reads one at the offsets of its own
  pointers; `Wire` and `Burst` have the same functions on the fields, for a
  little-endian host.

  `wire_eq` is the layout: the bytes of the fields, one after the other, so that
  what is read at an offset is the field that was written there.
-/

import DatacenterNetworking.Dpdk.Checksum
import DatacenterNetworking.Dpdk.Sender
import DatacenterNetworking.Lib.ByteOrder

namespace DatacenterNetworking
namespace Dpdk

/-- A host: its byte order, and the address of its port. -/
structure Host where
  order : ByteOrder
  myEth : EtherAddr

namespace Host

/-! ## Words -/

/-- `rte_cpu_to_be_16`, `rte_be_to_cpu_16`, `htons`, `ntohs`. -/
def cpuToBe16 (h : Host) (x : UInt16) : UInt16 :=
  match h.order with
  | .little => swap16 x
  | .big => x

/-- `rte_cpu_to_be_32`. -/
def cpuToBe32 (h : Host) (x : UInt32) : UInt32 :=
  match h.order with
  | .little => swap32 x
  | .big => x

def bytes16 (h : Host) (x : UInt16) : List UInt8 := h.order.store 2 x.toNat

def bytes32 (h : Host) (x : UInt32) : List UInt8 := h.order.store 4 x.toNat

/-! ## The checksum -/

/-- The header in memory. -/
def ipv4Bytes (h : Host) (ip : Ipv4Hdr) : List UInt8 :=
  [ip.versionIhl, ip.typeOfService] ++ h.bytes16 ip.totalLength ++ h.bytes16 ip.packetId ++
    h.bytes16 ip.fragmentOffset ++ [ip.timeToLive, ip.nextProtoId] ++ h.bytes16 ip.hdrChecksum ++
    h.bytes32 ip.srcAddr ++ h.bytes32 ip.dstAddr

/-- The loop of `checksum`. -/
def checksumLoop (h : Host) : List UInt8 → UInt32 → UInt32
  | [], sum => sum
  | [b], sum => addWord sum (b.toUInt32 * 256)
  | b₀ :: b₁ :: rest, sum =>
      checksumLoop h rest
        (addWord sum (h.cpuToBe16 (UInt16.ofNat (h.order.load [b₀, b₁]))).toUInt32)

/-- `wrapsum`. -/
def wrapsum (h : Host) (sum : UInt32) : UInt32 :=
  (h.cpuToBe16 (~~~sum &&& 0xFFFF).toUInt16).toUInt32

/-- The last two statements on the header. -/
def putChecksum (h : Host) (ip : Ipv4Hdr) : Ipv4Hdr :=
  let ipv4Checksum := h.wrapsum (h.checksumLoop ((h.ipv4Bytes ip).take ipv4HdrSize) 0)
  { ip with hdrChecksum := (h.cpuToBe32 ipv4Checksum).toUInt16 }

/-! ## The frames -/

/-- `construct_pkt`; `srcText` and `dstText` are the addresses of its string literals. -/
def constructPkt (h : Host) (srcText dstText : UInt32) (fid : UInt64) (sentSeq : UInt32) :
    Option Mbuf → Option Mbuf
  | none => none
  | some pkt =>
      let ipv4 : Ipv4Hdr :=
        { pkt.ipv4 with
          versionIhl := 0x45
          typeOfService := 0x0
          totalLength := h.cpuToBe16 (UInt16.ofNat (ipv4HdrSize + tcpHdrSize + payloadLen.toNat))
          packetId := h.cpuToBe16 1
          fragmentOffset := 0
          timeToLive := 64
          nextProtoId := IPPROTO_TCP
          srcAddr := h.cpuToBe32 srcText
          dstAddr := h.cpuToBe32 dstText }
      let port := (5001 + fid).toUInt16
      some
        { ether :=
            { dstAddr := serverEth
              srcAddr := h.myEth
              etherType := h.cpuToBe16 RTE_ETHER_TYPE_IPV4 }
          ipv4 := h.putChecksum ipv4
          tcp :=
            { srcPort := h.cpuToBe16 port
              dstPort := h.cpuToBe16 port
              sentSeq := sentSeq
              recvAck := 0
              dataOff := 0
              tcpFlags := 0
              rxWin := 0
              cksum := 0
              tcpUrp := 0 }
          payload := List.replicate payloadLen.toNat 0x61
          l2Len := etherHdrSize
          l3Len := ipv4HdrSize
          dataLen := etherHdrSize + ipv4HdrSize + tcpHdrSize + payloadLen.toNat
          pktLen := etherHdrSize + ipv4HdrSize + tcpHdrSize + payloadLen.toNat
          nbSegs := 1 }

/-- `construct_ack`: the ack for the received `pkt`, built in the allocated `ack`. -/
def constructAck (h : Host) (pkt ack : Mbuf) (fid : UInt8) (ackNum wnd : UInt32) : Mbuf :=
  let ipv4 : Ipv4Hdr :=
    { ack.ipv4 with
      versionIhl := 0x45
      typeOfService := 0x0
      totalLength := h.cpuToBe16 (UInt16.ofNat (ipv4HdrSize + tcpHdrSize + ackLen))
      packetId := h.cpuToBe16 1
      fragmentOffset := 0
      timeToLive := 64
      nextProtoId := IPPROTO_TCP
      srcAddr := pkt.ipv4.dstAddr
      dstAddr := pkt.ipv4.srcAddr }
  { ether :=
      { dstAddr := pkt.ether.srcAddr
        srcAddr := h.myEth
        etherType := h.cpuToBe16 RTE_ETHER_TYPE_IPV4 }
    ipv4 := h.putChecksum ipv4
    tcp :=
      { srcPort := h.cpuToBe16 (5001 + fid.toUInt16)
        dstPort := h.cpuToBe16 (5001 + fid.toUInt16)
        sentSeq := 0
        recvAck := ackNum
        dataOff := 0
        tcpFlags := 0
        rxWin := wnd.toUInt16
        cksum := 0
        tcpUrp := 0 }
    payload := List.replicate ackLen 0x61
    l2Len := etherHdrSize
    l3Len := ipv4HdrSize
    dataLen := etherHdrSize + ipv4HdrSize + tcpHdrSize + ackLen
    pktLen := etherHdrSize + ipv4HdrSize + tcpHdrSize + ackLen
    nbSegs := 1 }

def etherBytes (h : Host) (eth : EtherHdr) : List UInt8 :=
  eth.dstAddr.toList ++ eth.srcAddr.toList ++ h.bytes16 eth.etherType

def tcpBytes (h : Host) (tcp : TcpHdr) : List UInt8 :=
  h.bytes16 tcp.srcPort ++ h.bytes16 tcp.dstPort ++ h.bytes32 tcp.sentSeq ++
    h.bytes32 tcp.recvAck ++ [tcp.dataOff, tcp.tcpFlags] ++ h.bytes16 tcp.rxWin ++
    h.bytes16 tcp.cksum ++ h.bytes16 tcp.tcpUrp

/-- What is sent of a buffer: `data_len` bytes of what lies in its data room. -/
def wire (h : Host) (m : Mbuf) : List UInt8 :=
  (h.etherBytes m.ether ++ (h.ipv4Bytes m.ipv4 ++ (h.tcpBytes m.tcp ++ m.payload))).take m.dataLen

/-! ## The receivers -/

/-- The headers by the pointers of the receivers. -/
def ipHdr (frame : List UInt8) : List UInt8 := frame.drop etherHdrSize

def tcpHdr (frame : List UInt8) : List UInt8 := (ipHdr frame).drop ipv4HdrSize

/-- A field of 16 bits at an offset of its header, and one of 32. -/
def field16 (h : Host) (off : Nat) (hdr : List UInt8) : UInt16 :=
  UInt16.ofNat (h.order.fetch 2 off hdr)

def field32 (h : Host) (off : Nat) (hdr : List UInt8) : UInt32 :=
  UInt32.ofNat (h.order.fetch 4 off hdr)

/-- The checks `verify_pkt` and `parse_packet` both make before they look at the ports. -/
def Accepts (h : Host) (frame : List UInt8) : Prop :=
  h.myEth.toList = frame.take 6 ∧
  RTE_ETHER_TYPE_IPV4 = h.cpuToBe16 (h.field16 12 frame) ∧
  IPPROTO_TCP = (ipHdr frame).getD 9 0

instance (h : Host) (frame : List UInt8) : Decidable (h.Accepts frame) :=
  inferInstanceAs (Decidable (_ ∧ _ ∧ _))

/-- The comparisons of the destination port, the last that holds deciding. -/
def flowOfPort (h : Host) (ports : List (UInt16 × Nat)) (dstPort : UInt16) : Nat :=
  ports.foldl (fun ret port => if dstPort = h.cpuToBe16 port.1 then port.2 else ret) 0

/-- `verify_pkt`. -/
def verifyPkt (h : Host) (frame : List UInt8) : Nat :=
  if h.Accepts frame then
    h.flowOfPort (dataPorts ++ [(5001 + 100, STOP_FLOW_ID + 1)]) (h.field16 2 (tcpHdr frame))
  else 0

/-- `get_seq`. -/
def getSeq (h : Host) (frame : List UInt8) : UInt32 := h.field32 4 (tcpHdr frame)

/-- `parse_packet`: what it returns, and what it writes to `recv_ack` and `rcv_wnd`. -/
def parsePacket (h : Host) (frame : List UInt8) : Nat × Option (UInt64 × UInt32) :=
  if h.Accepts frame then
    (h.flowOfPort dataPorts (h.field16 2 (tcpHdr frame)),
      some ((h.field32 8 (tcpHdr frame)).toUInt64, (h.field16 14 (tcpHdr frame)).toUInt32))
  else (0, none)

/-! ## The layout -/

section Layout

variable {h h' : Host}

@[simp] theorem length_bytes16 (x : UInt16) : (h.bytes16 x).length = 2 :=
  ByteOrder.length_store _ _ _

@[simp] theorem length_bytes32 (x : UInt32) : (h.bytes32 x).length = 4 :=
  ByteOrder.length_store _ _ _

theorem length_etherBytes (eth : EtherHdr) : (h.etherBytes eth).length = etherHdrSize := by
  simp [etherBytes, etherHdrSize]

theorem length_ipv4Bytes (ip : Ipv4Hdr) : (h.ipv4Bytes ip).length = ipv4HdrSize := by
  simp [ipv4Bytes, ipv4HdrSize]

theorem length_tcpBytes (tcp : TcpHdr) : (h.tcpBytes tcp).length = tcpHdrSize := by
  simp [tcpBytes, tcpHdrSize]

/-- A host of the same byte order reads the word that was written at the offset. -/
theorem field16_append (hord : h'.order = h.order) {off : Nat} {pre : List UInt8} (x : UInt16)
    (post : List UInt8) (hpre : pre.length = off) :
    h'.field16 off (pre ++ (h.bytes16 x ++ post)) = x := by
  have hx := x.toNat_lt
  apply UInt16.toNat_inj.mp
  rw [field16, bytes16, hord, ByteOrder.fetch_append _ hpre, UInt16.toNat_ofNat']
  omega

theorem field32_append (hord : h'.order = h.order) {off : Nat} {pre : List UInt8} (x : UInt32)
    (post : List UInt8) (hpre : pre.length = off) :
    h'.field32 off (pre ++ (h.bytes32 x ++ post)) = x := by
  have hx := x.toNat_lt
  apply UInt32.toNat_inj.mp
  rw [field32, bytes32, hord, ByteOrder.fetch_append _ hpre, UInt32.toNat_ofNat']
  omega

/-- The lengths of a buffer are those of what lies in it. -/
def Full (m : Mbuf) : Prop :=
  m.dataLen = etherHdrSize + ipv4HdrSize + tcpHdrSize + m.payload.length

theorem wire_eq {m : Mbuf} (hfull : Full m) :
    h.wire m = h.etherBytes m.ether ++ (h.ipv4Bytes m.ipv4 ++ (h.tcpBytes m.tcp ++ m.payload)) := by
  refine List.take_of_length_le ?_
  rw [List.length_append, List.length_append, List.length_append, length_etherBytes,
    length_ipv4Bytes, length_tcpBytes, hfull]
  omega

theorem ipHdr_wire {m : Mbuf} (hfull : Full m) :
    ipHdr (h.wire m) = h.ipv4Bytes m.ipv4 ++ (h.tcpBytes m.tcp ++ m.payload) := by
  rw [ipHdr, wire_eq hfull]
  exact List.drop_left' (length_etherBytes m.ether)

theorem tcpHdr_wire {m : Mbuf} (hfull : Full m) :
    tcpHdr (h.wire m) = h.tcpBytes m.tcp ++ m.payload := by
  rw [tcpHdr, ipHdr_wire hfull]
  exact List.drop_left' (length_ipv4Bytes m.ipv4)

/-- The receiver checks the fields that the sender wrote. -/
theorem accepts_wire (hord : h'.order = h.order) {m : Mbuf} (hfull : Full m) :
    h'.Accepts (h.wire m) ↔ h'.myEth = m.ether.dstAddr ∧
      RTE_ETHER_TYPE_IPV4 = h'.cpuToBe16 m.ether.etherType ∧ IPPROTO_TCP = m.ipv4.nextProtoId := by
  have hdst : (h.wire m).take 6 = m.ether.dstAddr.toList := by
    rw [wire_eq hfull, etherBytes, List.append_assoc, List.append_assoc]
    exact List.take_left' m.ether.dstAddr.length_toList
  have htype : h'.field16 12 (h.wire m) = m.ether.etherType := by
    rw [wire_eq hfull, etherBytes, List.append_assoc]
    exact field16_append hord _ _ (by simp)
  have hproto : (ipHdr (h.wire m)).getD 9 0 = m.ipv4.nextProtoId := by
    rw [ipHdr_wire hfull]
    simp [ipv4Bytes, List.getElem?_append]
  rw [Accepts, hdst, htype, hproto, Vector.toList_inj]

/-- The fields of the TCP header that are read. -/
theorem tcpHdr_fields (hord : h'.order = h.order) {m : Mbuf} (hfull : Full m) :
    h'.field16 2 (tcpHdr (h.wire m)) = m.tcp.dstPort ∧
    h'.field32 4 (tcpHdr (h.wire m)) = m.tcp.sentSeq ∧
    h'.field32 8 (tcpHdr (h.wire m)) = m.tcp.recvAck ∧
    h'.field16 14 (tcpHdr (h.wire m)) = m.tcp.rxWin := by
  rw [tcpHdr_wire hfull, tcpBytes]
  simp only [List.append_assoc]
  refine ⟨field16_append hord _ _ (length_bytes16 _), ?_, ?_, ?_⟩
  · rw [← List.append_assoc]
    exact field32_append hord _ _ (by simp)
  · rw [← List.append_assoc, ← List.append_assoc]
    exact field32_append hord _ _ (by simp)
  · rw [← List.append_assoc, ← List.append_assoc, ← List.append_assoc, ← List.append_assoc]
    exact field16_append hord _ _ (by simp)

end Layout

/-! ## Ports -/

section Ports

variable (h : Host)

theorem cpuToBe16_involutive (x : UInt16) : h.cpuToBe16 (h.cpuToBe16 x) = x := by
  cases hord : h.order with
  | little =>
    have hx := x.toNat_lt
    simp only [cpuToBe16, hord]
    apply UInt16.toNat_inj.mp
    rw [swap16_toNat, swap16_toNat]
    omega
  | big => simp only [cpuToBe16, hord]

/-- Ports in network order compare as the ports do. -/
theorem flowOfPort_cpuToBe16 (ports : List (UInt16 × Nat)) (port : UInt16) :
    h.flowOfPort ports (h.cpuToBe16 port) =
      ports.foldl (fun ret p => if port = p.1 then p.2 else ret) 0 := by
  have hinj : ∀ x y, h.cpuToBe16 x = h.cpuToBe16 y ↔ x = y := fun x y =>
    (Function.LeftInverse.injective h.cpuToBe16_involutive).eq_iff
  simp only [flowOfPort, hinj]

end Ports

/-! ## The round trip -/

section RoundTrip

variable {client server : Host}

/-- What the server finds in a frame of the client. -/
theorem verifyPkt_constructPkt (hord : server.order = client.order)
    (hdst : server.myEth = serverEth) (srcText dstText : UInt32) (fid : UInt64) (seq : UInt32)
    (pkt : Mbuf) :
    ∃ frame, client.constructPkt srcText dstText fid seq (some pkt) = some frame ∧
      server.verifyPkt (client.wire frame) =
        (dataPorts ++ [(5001 + 100, STOP_FLOW_ID + 1)]).foldl
          (fun ret (p : UInt16 × Nat) => if (5001 + fid).toUInt16 = p.1 then p.2 else ret) 0 ∧
      server.getSeq (client.wire frame) = seq := by
  have hto : ∀ x, server.cpuToBe16 x = client.cpuToBe16 x := by
    intro x
    rw [cpuToBe16, cpuToBe16, hord]
  refine ⟨_, rfl, ?_, ?_⟩
  · rw [verifyPkt, if_pos ((accepts_wire hord (by rfl)).mpr ⟨hdst, ?_, rfl⟩),
      (tcpHdr_fields hord (by rfl)).1]
    · simp only [← hto]
      exact server.flowOfPort_cpuToBe16 _ _
    · simp only [← hto]
      exact (server.cpuToBe16_involutive _).symm
  · rw [getSeq, (tcpHdr_fields hord (by rfl)).2.1]

/-- What the client finds in an ack of the server. -/
theorem parsePacket_constructAck (hord : client.order = server.order) {pkt : Mbuf}
    (hsrc : client.myEth = pkt.ether.srcAddr) (ack : Mbuf) (fid : UInt8) (ackNum wnd : UInt32) :
    client.parsePacket (server.wire (server.constructAck pkt ack fid ackNum wnd)) =
      (dataPorts.foldl (fun ret p => if 5001 + fid.toUInt16 = p.1 then p.2 else ret) 0,
        some (ackNum.toUInt64, wnd.toUInt16.toUInt32)) := by
  have hto : ∀ x, client.cpuToBe16 x = server.cpuToBe16 x := by
    intro x
    rw [cpuToBe16, cpuToBe16, hord]
  have hfull : Full (server.constructAck pkt ack fid ackNum wnd) := rfl
  obtain ⟨hport, -, hrecv, hwin⟩ := tcpHdr_fields hord hfull
  rw [parsePacket, if_pos ((accepts_wire hord hfull).mpr ⟨hsrc, ?_, rfl⟩), hport, hrecv, hwin]
  · refine congrArg (fun flow => (flow, _)) ?_
    simp only [constructAck, ← hto]
    exact client.flowOfPort_cpuToBe16 _ _
  · simp only [constructAck, ← hto]
    exact (client.cpuToBe16_involutive _).symm

/-- What one program writes into a frame for the other, the other reads from it. -/
theorem wire_round_trip (client server : Host) (hord : client.order = server.order)
    (hserver : server.myEth = serverEth) :
    (∀ (srcText dstText : UInt32) (pkt : Mbuf),
      (∀ fid < MAX_FLOW_NUM, ∀ seq : UInt32, ∃ frame,
        client.constructPkt srcText dstText (UInt64.ofNat fid) seq (some pkt) = some frame ∧
        server.verifyPkt (client.wire frame) = fid + 1 ∧
        server.getSeq (client.wire frame) = seq) ∧
      ∃ frame,
        client.constructPkt srcText dstText (UInt64.ofNat STOP_FLOW_ID) 0 (some pkt) = some frame ∧
        server.verifyPkt (client.wire frame) = STOP_FLOW_ID + 1) ∧
    ∀ pkt ack : Mbuf, pkt.ether.srcAddr = client.myEth →
      ∀ fid < MAX_FLOW_NUM, ∀ (ackNum : UInt32) (wnd : UInt16),
        client.parsePacket
            (server.wire (server.constructAck pkt ack (UInt8.ofNat fid) ackNum wnd.toUInt32)) =
          (fid + 1, some (ackNum.toUInt64, wnd.toUInt32)) := by
  -- the scan for the port ends with the flow that the port was built from
  have hports : ∀ fid < MAX_FLOW_NUM,
      (dataPorts ++ [(5001 + 100, STOP_FLOW_ID + 1)]).foldl
          (fun ret (p : UInt16 × Nat) =>
            if (5001 + UInt64.ofNat fid).toUInt16 = p.1 then p.2 else ret) 0 = fid + 1 ∧
        dataPorts.foldl
          (fun ret (p : UInt16 × Nat) =>
            if 5001 + (UInt8.ofNat fid).toUInt16 = p.1 then p.2 else ret) 0 = fid + 1 := by
    decide
  refine ⟨fun srcText dstText pkt => ⟨fun fid hfid seq => ?_, ?_⟩,
    fun pkt ack hsrc fid hfid ackNum wnd => ?_⟩
  · obtain ⟨frame, hframe, hverify, hseq⟩ :=
      verifyPkt_constructPkt hord.symm hserver srcText dstText (UInt64.ofNat fid) seq pkt
    exact ⟨frame, hframe, hverify.trans (hports fid hfid).1, hseq⟩
  · obtain ⟨frame, hframe, hverify, -⟩ :=
      verifyPkt_constructPkt hord.symm hserver srcText dstText (UInt64.ofNat STOP_FLOW_ID) 0 pkt
    exact ⟨frame, hframe, hverify.trans (by decide)⟩
  · rw [parsePacket_constructAck hord hsrc.symm, (hports fid hfid).2, UInt16.toUInt16_toUInt32]

end RoundTrip

/-- On two big-endian hosts. -/
theorem wire_round_trip_big :
    (⟨.big, Vector.replicate 6 1⟩ : Host).parsePacket
        ((⟨.big, serverEth⟩ : Host).wire
          ((⟨.big, serverEth⟩ : Host).constructAck
            { Mbuf.zeroed with
              ether := { Mbuf.zeroed.ether with srcAddr := Vector.replicate 6 1 } }
            Mbuf.zeroed (UInt8.ofNat 7) 77 (128 : UInt16).toUInt32)) =
      (7 + 1, some ((77 : UInt32).toUInt64, (128 : UInt16).toUInt32)) :=
  (wire_round_trip ⟨.big, Vector.replicate 6 1⟩ ⟨.big, serverEth⟩ rfl rfl).2 _ _ rfl 7 (by decide)
    77 128

/-! ## Little-endian hosts -/

section Little

variable (myEth : EtherAddr)

theorem bytes16_little (x : UInt16) : (⟨.little, myEth⟩ : Host).bytes16 x = Dpdk.bytes16 x := by
  have hhigh : UInt8.ofNat (x.toNat / 256) = (x / 256).toUInt8 :=
    UInt8.toNat_inj.mp (by simp)
  simp only [bytes16, ByteOrder.store, lowBytes, Dpdk.bytes16, hhigh]
  rfl

theorem bytes32_little (x : UInt32) : (⟨.little, myEth⟩ : Host).bytes32 x = Dpdk.bytes32 x := by
  have h₁ : UInt8.ofNat (x.toNat / 256) = (x / 256).toUInt8 := UInt8.toNat_inj.mp (by simp)
  have h₂ : UInt8.ofNat (x.toNat / 256 / 256) = (x / 65536).toUInt8 :=
    UInt8.toNat_inj.mp (by simp [Nat.div_div_eq_div_mul])
  have h₃ : UInt8.ofNat (x.toNat / 256 / 256 / 256) = (x / 16777216).toUInt8 :=
    UInt8.toNat_inj.mp (by simp [Nat.div_div_eq_div_mul])
  simp only [bytes32, ByteOrder.store, lowBytes, Dpdk.bytes32, h₁, h₂, h₃]
  rfl

theorem ipv4Bytes_little (ip : Ipv4Hdr) : (⟨.little, myEth⟩ : Host).ipv4Bytes ip = ip.bytes := by
  simp only [ipv4Bytes, bytes16_little, bytes32_little, Ipv4Hdr.bytes]

theorem checksumLoop_little (buf : List UInt8) (sum : UInt32) :
    (⟨.little, myEth⟩ : Host).checksumLoop buf sum = Dpdk.checksumLoop buf sum := by
  have hload : ∀ b₀ b₁ : UInt8,
      UInt16.ofNat (ByteOrder.little.load [b₀, b₁]) = load16 b₀ b₁ := by
    intro b₀ b₁
    have h₀ := b₀.toNat_lt
    have h₁ := b₁.toNat_lt
    apply UInt16.toNat_inj.mp
    rw [load16_toNat, UInt16.toNat_ofNat']
    simp only [ByteOrder.load, ofLowBytes]
    omega
  -- two bytes a round, and the odd tail
  induction buf, sum using Dpdk.checksumLoop.induct with
  | case1 sum => rfl
  | case2 sum b => rfl
  | case3 sum b₀ b₁ rest ih =>
    rw [checksumLoop, Dpdk.checksumLoop, hload]
    exact ih

theorem putChecksum_little (ip : Ipv4Hdr) :
    (⟨.little, myEth⟩ : Host).putChecksum ip = ip.putChecksum := by
  rw [putChecksum, ipv4Bytes_little, checksumLoop_little]
  rfl

theorem constructPkt_little : (⟨.little, myEth⟩ : Host).constructPkt = Dpdk.constructPkt myEth := by
  funext srcText dstText fid sentSeq pkt
  cases pkt with
  | none => rfl
  | some pkt =>
    simp only [constructPkt, putChecksum_little]
    rfl

theorem constructAck_little : (⟨.little, myEth⟩ : Host).constructAck = Dpdk.constructAck myEth := by
  funext pkt ack fid ackNum wnd
  simp only [constructAck, putChecksum_little]
  rfl

theorem parseHeaders_little (peer : EtherAddr) (ports : List (UInt16 × Nat)) {m : Mbuf}
    (hfull : Full m) :
    parseHeaders ports myEth m =
      if (⟨.little, myEth⟩ : Host).Accepts ((⟨.little, peer⟩ : Host).wire m) then
        (⟨.little, myEth⟩ : Host).flowOfPort ports m.tcp.dstPort
      else 0 := by
  have hord : (⟨.little, myEth⟩ : Host).order = (⟨.little, peer⟩ : Host).order := rfl
  have haccepts := accepts_wire hord hfull
  rw [parseHeaders]
  -- the three checks in the order of the source, each of which gives 0 when it fails
  by_cases hacc : (⟨.little, myEth⟩ : Host).Accepts ((⟨.little, peer⟩ : Host).wire m)
  · obtain ⟨haddr, (htype : RTE_ETHER_TYPE_IPV4 = swap16 _), hproto⟩ := haccepts.mp hacc
    rw [if_pos hacc, if_neg (not_not.mpr haddr), if_neg (not_not.mpr htype),
      if_neg (not_not.mpr hproto)]
    rfl
  · rw [if_neg hacc]
    by_cases haddr : myEth = m.ether.dstAddr
    · by_cases htype : RTE_ETHER_TYPE_IPV4 = swap16 m.ether.etherType
      · have hproto : IPPROTO_TCP ≠ m.ipv4.nextProtoId := fun hproto =>
          hacc (haccepts.mpr ⟨haddr, htype, hproto⟩)
        rw [if_neg (not_not.mpr haddr), if_neg (not_not.mpr htype), if_pos hproto]
      · rw [if_neg (not_not.mpr haddr), if_pos htype]
    · rw [if_pos haddr]

/-- On the fields of a frame the receivers do what they do on its bytes. -/
theorem receivers_little (peer : EtherAddr) {m : Mbuf} (hfull : Full m) :
    (⟨.little, myEth⟩ : Host).verifyPkt ((⟨.little, peer⟩ : Host).wire m) = Dpdk.verifyPkt myEth m ∧
    ((⟨.little, myEth⟩ : Host).getSeq ((⟨.little, peer⟩ : Host).wire m)).toNat = Dpdk.getSeq m ∧
    ((⟨.little, myEth⟩ : Host).parsePacket ((⟨.little, peer⟩ : Host).wire m)).1 =
      Dpdk.parsePacket myEth m := by
  have hord : (⟨.little, myEth⟩ : Host).order = (⟨.little, peer⟩ : Host).order := rfl
  obtain ⟨hport, hseq, -, -⟩ := tcpHdr_fields hord hfull
  refine ⟨?_, ?_, ?_⟩
  · rw [verifyPkt, hport, Dpdk.verifyPkt, parseHeaders_little myEth peer _ hfull]
  · rw [getSeq, hseq]
    rfl
  · rw [Dpdk.parsePacket, parseHeaders_little myEth peer _ hfull, parsePacket, hport]
    split_ifs <;> rfl

end Little

end Host

end Dpdk
end DatacenterNetworking
