/-
  DatacenterNetworking.Dpdk.Wire

  The frames of `construct_pkt` (`Client/lab1-client.c`) and `construct_ack`
  (`Server/lab1-server.c`), as they lie in the memory of a little-endian host:
  `htons`, `ntohs`, `rte_cpu_to_be_16` and `rte_cpu_to_be_32` swap the bytes of
  their argument.

  An allocated `mbuf` has whatever contents its last use left there.
-/

import DatacenterNetworking.Dpdk.Client
import DatacenterNetworking.Lib.OnesComplement

namespace DatacenterNetworking
namespace Dpdk

/-! ## Words in memory -/

/-- `htons`, `ntohs`, `rte_cpu_to_be_16`. -/
def swap16 (x : UInt16) : UInt16 := x * 256 + x / 256

/-- `rte_cpu_to_be_32`. -/
def swap32 (x : UInt32) : UInt32 :=
  x * 16777216 + x / 256 % 256 * 65536 + x / 65536 % 256 * 256 + x / 16777216

/-- The bytes of a word, the lowest first. -/
def bytes16 (x : UInt16) : List UInt8 := [x.toUInt8, (x / 256).toUInt8]

def bytes32 (x : UInt32) : List UInt8 :=
  [x.toUInt8, (x / 256).toUInt8, (x / 65536).toUInt8, (x / 16777216).toUInt8]

/-- `*(uint16_t *)` at the two bytes. -/
def load16 (b₀ b₁ : UInt8) : UInt16 := b₀.toUInt16 + b₁.toUInt16 * 256

/-! ## Headers -/

/-- `rte_ether_addr`. -/
abbrev EtherAddr := Vector UInt8 6

/-- `rte_ether_hdr`. -/
structure EtherHdr where
  dstAddr : EtherAddr
  srcAddr : EtherAddr
  etherType : UInt16
  deriving DecidableEq, Repr

/-- `rte_ipv4_hdr`. -/
structure Ipv4Hdr where
  versionIhl : UInt8
  typeOfService : UInt8
  totalLength : UInt16
  packetId : UInt16
  fragmentOffset : UInt16
  timeToLive : UInt8
  nextProtoId : UInt8
  hdrChecksum : UInt16
  srcAddr : UInt32
  dstAddr : UInt32
  deriving DecidableEq, Repr

/-- `rte_tcp_hdr`. -/
structure TcpHdr where
  srcPort : UInt16
  dstPort : UInt16
  sentSeq : UInt32
  recvAck : UInt32
  dataOff : UInt8
  tcpFlags : UInt8
  rxWin : UInt16
  cksum : UInt16
  tcpUrp : UInt16
  deriving DecidableEq, Repr

/-- `rte_mbuf`: the frame it holds and its lengths. -/
structure Mbuf where
  ether : EtherHdr
  ipv4 : Ipv4Hdr
  tcp : TcpHdr
  payload : List UInt8
  l2Len : Nat
  l3Len : Nat
  dataLen : Nat
  pktLen : Nat
  nbSegs : Nat
  deriving DecidableEq, Repr

/-- `sizeof` of the headers. -/
def etherHdrSize : Nat := 14

def ipv4HdrSize : Nat := 20

def tcpHdrSize : Nat := 20

/-- `RTE_ETHER_TYPE_IPV4`. -/
def RTE_ETHER_TYPE_IPV4 : UInt16 := 0x0800

/-- `IPPROTO_TCP`. -/
def IPPROTO_TCP : UInt8 := 6

namespace Ipv4Hdr

/-- The header in memory. -/
def bytes (h : Ipv4Hdr) : List UInt8 :=
  [h.versionIhl, h.typeOfService] ++ bytes16 h.totalLength ++ bytes16 h.packetId ++
    bytes16 h.fragmentOffset ++ [h.timeToLive, h.nextProtoId] ++ bytes16 h.hdrChecksum ++
    bytes32 h.srcAddr ++ bytes32 h.dstAddr

end Ipv4Hdr

/-! ## The checksum -/

/-- `sum += word`, less `0xFFFF` when it is more than that. -/
def addWord (sum word : UInt32) : UInt32 :=
  if 0xFFFF < sum + word then sum + word - 0xFFFF else sum + word

/-- The loop over the pairs of bytes, and the byte that may be left. -/
def checksumLoop : List UInt8 → UInt32 → UInt32
  | [], sum => sum
  | [b], sum => addWord sum (b.toUInt32 * 256)
  | b₀ :: b₁ :: rest, sum => checksumLoop rest (addWord sum (swap16 (load16 b₀ b₁)).toUInt32)

/-- `checksum`. -/
def checksum (buf : List UInt8) (nbytes : Nat) (sum : UInt32) : UInt32 :=
  checksumLoop (buf.take nbytes) sum

/-- `wrapsum`. -/
def wrapsum (sum : UInt32) : UInt32 := (swap16 (~~~sum &&& 0xFFFF).toUInt16).toUInt32

/-- The last two statements both sides make on the header: its checksum, with whatever the
    field held summed as well, goes through a swap of 32 bits into the field of 16. -/
def Ipv4Hdr.putChecksum (h : Ipv4Hdr) : Ipv4Hdr :=
  let ipv4Checksum := wrapsum (checksum h.bytes ipv4HdrSize 0)
  { h with hdrChecksum := (swap32 ipv4Checksum).toUInt16 }

/-! ## The client's packets -/

/-- The destination MAC address in `construct_pkt`. -/
def serverEth : EtherAddr := #v[0x14, 0x58, 0xd0, 0x58, 0x9f, 0x53]

/-- `construct_pkt`, from what the allocation returns.  `srcText` and `dstText` are the
    addresses of its two string literals, as `uint32_t`: it swaps these, not the addresses
    the strings spell. -/
def constructPkt (myEth : EtherAddr) (srcText dstText : UInt32) (fid : UInt64)
    (sentSeq : UInt32) : Option Mbuf → Option Mbuf
  | none => none
  | some pkt =>
      let ipv4 : Ipv4Hdr :=
        { pkt.ipv4 with
          versionIhl := 0x45
          typeOfService := 0x0
          totalLength := swap16 (UInt16.ofNat (ipv4HdrSize + tcpHdrSize + payloadLen.toNat))
          packetId := swap16 1
          fragmentOffset := 0
          timeToLive := 64
          nextProtoId := IPPROTO_TCP
          srcAddr := swap32 srcText
          dstAddr := swap32 dstText }
      let port := (5001 + fid).toUInt16
      some
        { ether :=
            { dstAddr := serverEth
              srcAddr := myEth
              etherType := swap16 RTE_ETHER_TYPE_IPV4 }
          ipv4 := ipv4.putChecksum
          tcp :=
            { srcPort := swap16 port
              dstPort := swap16 port
              sentSeq := sentSeq
              recvAck := 0
              dataOff := 0
              tcpFlags := 0
              rxWin := 0
              cksum := 0
              tcpUrp := 0 }
          payload := List.replicate payloadLen.toNat 0x61
          l2Len := etherHdrSize
          l3Len := ipv4HdrSize
          dataLen := etherHdrSize + ipv4HdrSize + tcpHdrSize + payloadLen.toNat
          pktLen := etherHdrSize + ipv4HdrSize + tcpHdrSize + payloadLen.toNat
          nbSegs := 1 }

/-! ## The server's acks -/

/-- `ack_len`. -/
def ackLen : Nat := 10

/-- `construct_ack`: the ack for the received `pkt`, built in the allocated `ack`. -/
def constructAck (myEth : EtherAddr) (pkt ack : Mbuf) (fid : UInt8) (ackNum wnd : UInt32) :
    Mbuf :=
  let ipv4 : Ipv4Hdr :=
    { ack.ipv4 with
      versionIhl := 0x45
      typeOfService := 0x0
      totalLength := swap16 (UInt16.ofNat (ipv4HdrSize + tcpHdrSize + ackLen))
      packetId := swap16 1
      fragmentOffset := 0
      timeToLive := 64
      nextProtoId := IPPROTO_TCP
      srcAddr := pkt.ipv4.dstAddr
      dstAddr := pkt.ipv4.srcAddr }
  { ether :=
      { dstAddr := pkt.ether.srcAddr, srcAddr := myEth, etherType := swap16 RTE_ETHER_TYPE_IPV4 }
    ipv4 := ipv4.putChecksum
    tcp :=
      { srcPort := swap16 (5001 + fid.toUInt16)
        dstPort := swap16 (5001 + fid.toUInt16)
        sentSeq := 0
        recvAck := ackNum
        dataOff := 0
        tcpFlags := 0
        rxWin := wnd.toUInt16
        cksum := 0
        tcpUrp := 0 }
    payload := List.replicate ackLen 0x61
    l2Len := etherHdrSize
    l3Len := ipv4HdrSize
    dataLen := etherHdrSize + ipv4HdrSize + tcpHdrSize + ackLen
    pktLen := etherHdrSize + ipv4HdrSize + tcpHdrSize + ackLen
    nbSegs := 1 }

end Dpdk
end DatacenterNetworking
