/-
  DatacenterNetworking.Dpdk.HeaderChecksum

  Do the IPv4 headers of `construct_pkt` and `construct_ack` verify?  Both store
  the checksum through `rte_cpu_to_be_32` into a field of 16 bits.  The checksum
  has 16 bits, the swap moves them to the upper half of the word, and the store
  keeps the lower half: the field is always zero, whatever was summed.

  `headers_verify_iff`: so a header verifies exactly when its other words add up
  to `0xFFFF` by themselves.
-/

import DatacenterNetworking.Dpdk.Wire

namespace DatacenterNetworking
namespace Dpdk

/-! ## Byte swaps -/

theorem swap16_toNat (x : UInt16) : (swap16 x).toNat = x.toNat % 256 * 256 + x.toNat / 256 := by
  have hx := x.toNat_lt
  simp only [swap16, UInt16.toNat_add, UInt16.toNat_mul, UInt16.toNat_div, UInt16.reduceToNat,
    Nat.reducePow] at hx ⊢
  omega

theorem swap32_toNat (x : UInt32) :
    (swap32 x).toNat =
      x.toNat % 256 * 16777216 + x.toNat / 256 % 256 * 65536 + x.toNat / 65536 % 256 * 256 +
        x.toNat / 16777216 := by
  have hx := x.toNat_lt
  simp only [swap32, UInt32.toNat_add, UInt32.toNat_mul, UInt32.toNat_div, UInt32.toNat_mod,
    UInt32.reduceToNat, Nat.reducePow] at hx ⊢
  omega

/-- The bytes of a word. -/
theorem exists_bytes32 (x : UInt32) : ∃ a b c d : Nat, a < 256 ∧ b < 256 ∧ c < 256 ∧ d < 256 ∧
    x.toNat = a + b * 256 + c * 65536 + d * 16777216 := by
  have hx := x.toNat_lt
  exact ⟨x.toNat % 256, x.toNat / 256 % 256, x.toNat / 65536 % 256, x.toNat / 16777216,
    by omega, by omega, by omega, by omega, by omega⟩

/-- A swap reverses them. -/
theorem swap32_of_bytes {x : UInt32} {a b c d : Nat} (ha : a < 256) (hb : b < 256) (hc : c < 256)
    (hx : x.toNat = a + b * 256 + c * 65536 + d * 16777216) :
    (swap32 x).toNat = d + c * 256 + b * 65536 + a * 16777216 := by
  rw [swap32_toNat, hx]
  omega

@[simp] theorem swap32_swap32 (x : UInt32) : swap32 (swap32 x) = x := by
  obtain ⟨a, b, c, d, ha, hb, hc, hd, hx⟩ := exists_bytes32 x
  have hswap := swap32_of_bytes ha hb hc hx
  apply UInt32.toNat_inj.mp
  rw [swap32_of_bytes hd hc hb hswap, hx]

/-- A word of 16 bits, swapped as one of 32, has nothing left in its lower half. -/
theorem toUInt16_swap32_toUInt32 (x : UInt16) : (swap32 x.toUInt32).toUInt16 = 0 := by
  have hx := x.toNat_lt
  have hbytes : x.toUInt32.toNat =
      x.toNat % 256 + x.toNat / 256 * 256 + 0 * 65536 + 0 * 16777216 := by
    rw [UInt16.toNat_toUInt32]
    omega
  apply UInt16.toNat_inj.mp
  rw [UInt32.toNat_toUInt16, swap32_of_bytes (by omega) (by omega) (by omega) hbytes,
    UInt16.toNat_zero]
  omega

/-! ## What verifies -/

/-- The 16-bit words of a buffer, each read in network order. -/
def netWords : List UInt8 → List Nat
  | b₀ :: b₁ :: rest => (b₀.toNat * 256 + b₁.toNat) :: netWords rest
  | _ => []

/-- The ones'-complement sum of the header's words is `0xFFFF`. -/
def Ipv4Hdr.Verifies (h : Ipv4Hdr) : Prop := onesSum 0xFFFF 0 (netWords h.bytes) = 0xFFFF

instance (h : Ipv4Hdr) : Decidable h.Verifies := inferInstanceAs (Decidable (_ = _))

/-- The ten words of a header. -/
theorem netWords_bytes (h : Ipv4Hdr) :
    netWords h.bytes =
      [h.versionIhl.toNat * 256 + h.typeOfService.toNat, (swap16 h.totalLength).toNat,
        (swap16 h.packetId).toNat, (swap16 h.fragmentOffset).toNat,
        h.timeToLive.toNat * 256 + h.nextProtoId.toNat, (swap16 h.hdrChecksum).toNat,
        (swap32 h.srcAddr).toNat / 65536, (swap32 h.srcAddr).toNat % 65536,
        (swap32 h.dstAddr).toNat / 65536, (swap32 h.dstAddr).toNat % 65536] := by
  -- a halfword whose bytes are read in network order is the swapped halfword
  have h16 : ∀ x : UInt16, x.toUInt8.toNat * 256 + (x / 256).toUInt8.toNat = (swap16 x).toNat := by
    intro x
    have hx := x.toNat_lt
    rw [swap16_toNat]
    simp only [UInt16.toNat_toUInt8, UInt16.toNat_div, UInt16.reduceToNat, Nat.reducePow] at hx ⊢
    omega
  -- and a word is two halfwords, the high one first
  have h32 : ∀ x : UInt32,
      x.toUInt8.toNat * 256 + (x / 256).toUInt8.toNat = (swap32 x).toNat / 65536 ∧
        (x / 65536).toUInt8.toNat * 256 + (x / 16777216).toUInt8.toNat =
          (swap32 x).toNat % 65536 := by
    intro x
    obtain ⟨a, b, c, d, ha, hb, hc, hd, hx⟩ := exists_bytes32 x
    have h₀ : x.toNat % 256 = a := by omega
    have h₁ : x.toNat / 256 % 256 = b := by omega
    have h₂ : x.toNat / 65536 % 256 = c := by omega
    have h₃ : x.toNat / 16777216 % 256 = d := by omega
    have hhigh : (d + c * 256 + b * 65536 + a * 16777216) / 65536 = b + a * 256 := by omega
    have hlow : (d + c * 256 + b * 65536 + a * 16777216) % 65536 = d + c * 256 := by omega
    rw [swap32_of_bytes ha hb hc hx, hhigh, hlow]
    simp only [UInt32.toNat_toUInt8, UInt32.toNat_div, UInt32.reduceToNat, Nat.reducePow, h₀, h₁,
      h₂, h₃]
    exact ⟨Nat.add_comm _ _, Nat.add_comm _ _⟩
  simp only [Ipv4Hdr.bytes, bytes16, bytes32, List.cons_append, List.nil_append, netWords, h16,
    (h32 _).1, (h32 _).2]

theorem sum_netWords (h : Ipv4Hdr) :
    (netWords h.bytes).sum =
      h.versionIhl.toNat * 256 + h.typeOfService.toNat + (swap16 h.totalLength).toNat +
        (swap16 h.packetId).toNat + (swap16 h.fragmentOffset).toNat +
        (h.timeToLive.toNat * 256 + h.nextProtoId.toNat) + (swap16 h.hdrChecksum).toNat +
        ((swap32 h.srcAddr).toNat / 65536 + (swap32 h.srcAddr).toNat % 65536) +
        ((swap32 h.dstAddr).toNat / 65536 + (swap32 h.dstAddr).toNat % 65536) := by
  rw [netWords_bytes]
  -- `simp` would leave the sum to unfolding in the kernel
  iterate 10 rw [List.sum_cons]
  rw [List.sum_nil]
  omega

/-- The words of a buffer have 16 bits. -/
theorem netWords_le (buf : List UInt8) : ∀ w ∈ netWords buf, w ≤ 0xFFFF := by
  induction buf using netWords.induct with
  | case1 b₀ b₁ rest ih =>
    have h₀ := b₀.toNat_lt
    have h₁ := b₁.toNat_lt
    rw [netWords]
    exact List.forall_mem_cons.mpr ⟨by omega, ih⟩
  | case2 buf hshort =>
    rw [netWords]
    · exact fun w hw => absurd hw List.not_mem_nil
    · exact hshort

/-- A header verifies when its words add up to a positive multiple of `0xFFFF`. -/
theorem verifies_iff (h : Ipv4Hdr) :
    h.Verifies ↔ 0xFFFF ∣ (netWords h.bytes).sum ∧ 0 < (netWords h.bytes).sum := by
  rw [Ipv4Hdr.Verifies, onesSum_eq_top_iff (Nat.zero_le _) (netWords_le _), Nat.zero_add]
  exact or_iff_left (by decide)

/-! ## What is stored -/

namespace Ipv4Hdr

/-- The field is zero after the store, whatever the header. -/
theorem putChecksum_hdrChecksum (h : Ipv4Hdr) : h.putChecksum.hdrChecksum = 0 :=
  toUInt16_swap32_toUInt32 _

/-- Nothing else of the header changes. -/
theorem putChecksum_eq (h : Ipv4Hdr) : h.putChecksum = { h with hdrChecksum := 0 } := by
  rw [← putChecksum_hdrChecksum h]
  rfl

end Ipv4Hdr

/-- The words of a header that either side has filled in, up to its checksum. -/
theorem filled_verifies_iff (h : Ipv4Hdr) (hver : h.versionIhl = 0x45)
    (htos : h.typeOfService = 0) (hid : h.packetId = swap16 1) (hfrag : h.fragmentOffset = 0)
    (httl : h.timeToLive = 64) (hproto : h.nextProtoId = IPPROTO_TCP) :
    h.putChecksum.Verifies ↔
      0xFFFF ∣ 0x8507 + (swap16 h.totalLength).toNat + (swap32 h.srcAddr).toNat +
        (swap32 h.dstAddr).toNat := by
  have hone : (swap16 (swap16 1)).toNat = 1 := by decide
  have hzero : (swap16 0).toNat = 0 := by decide
  have hsum : (netWords h.putChecksum.bytes).sum =
      0x8507 + (swap16 h.totalLength).toNat +
        ((swap32 h.srcAddr).toNat / 65536 + (swap32 h.srcAddr).toNat % 65536) +
        ((swap32 h.dstAddr).toNat / 65536 + (swap32 h.dstAddr).toNat % 65536) := by
    rw [sum_netWords, Ipv4Hdr.putChecksum_eq]
    simp only [hver, htos, hid, hfrag, httl, hproto, hone, hzero, IPPROTO_TCP, UInt8.reduceToNat]
    omega
  rw [verifies_iff, hsum]
  omega

/-! ## The two headers -/

/-- The client's header verifies when its other words do, `srcText` and `dstText` being the
    values in its address fields; so does the server's, whose fields are those of the packet
    it answers.  A field of 32 bits counts with its value, since `0x10000` is a one. -/
theorem headers_verify_iff (myEth : EtherAddr) :
    (∀ (srcText dstText : UInt32) (fid : UInt64) (sentSeq : UInt32) (pkt : Mbuf), ∃ frame,
        constructPkt myEth srcText dstText fid sentSeq (some pkt) = some frame ∧
        (frame.ipv4.Verifies ↔ 0xFFFF ∣ 0x856F + srcText.toNat + dstText.toNat)) ∧
    (∀ (pkt ack : Mbuf) (fid : UInt8) (ackNum wnd : UInt32),
      (constructAck myEth pkt ack fid ackNum wnd).ipv4.Verifies ↔
        0xFFFF ∣ 0x8539 + (swap32 pkt.ipv4.dstAddr).toNat + (swap32 pkt.ipv4.srcAddr).toNat) := by
  have hpkt : (swap16 (swap16 (UInt16.ofNat (ipv4HdrSize + tcpHdrSize + payloadLen.toNat)))).toNat =
      104 := by decide
  have hack : (swap16 (swap16 (UInt16.ofNat (ipv4HdrSize + tcpHdrSize + ackLen)))).toNat = 50 := by
    decide
  constructor
  · intro srcText dstText fid sentSeq pkt
    refine ⟨_, rfl, ?_⟩
    rw [filled_verifies_iff _ rfl rfl rfl rfl rfl rfl]
    simp only [hpkt, swap32_swap32]
  · intro pkt ack fid ackNum wnd
    simp only [constructAck]
    rw [filled_verifies_iff _ rfl rfl rfl rfl rfl rfl]
    simp only [hack]

/-- A buffer of zeros. -/
def Mbuf.zeroed : Mbuf where
  ether := { dstAddr := Vector.replicate 6 0, srcAddr := Vector.replicate 6 0, etherType := 0 }
  ipv4 :=
    { versionIhl := 0, typeOfService := 0, totalLength := 0, packetId := 0, fragmentOffset := 0
      timeToLive := 0, nextProtoId := 0, hdrChecksum := 0, srcAddr := 0, dstAddr := 0 }
  tcp :=
    { srcPort := 0, dstPort := 0, sentSeq := 0, recvAck := 0, dataOff := 0, tcpFlags := 0
      rxWin := 0, cksum := 0, tcpUrp := 0 }
  payload := []
  l2Len := 0
  l3Len := 0
  dataLen := 0
  pktLen := 0
  nbSegs := 1

/-- Neither the first packet of flow 0, with the string literal at `0x404010`, nor its ack
    verifies. -/
theorem headers_fail :
    ∃ frame, constructPkt serverEth 0x404010 0x404010 0 1 (some Mbuf.zeroed) = some frame ∧
      ¬ frame.ipv4.Verifies ∧
      ¬ (constructAck serverEth frame Mbuf.zeroed 0 1 128).ipv4.Verifies := by
  refine ⟨_, rfl, ?_⟩
  decide +kernel

end Dpdk
end DatacenterNetworking
