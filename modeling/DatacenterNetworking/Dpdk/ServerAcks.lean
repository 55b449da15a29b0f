/-
  DatacenterNetworking.Dpdk.ServerAcks

  Where do the receiver's acks go, and what window do they advertise?

  All acks of an iteration are built from `rcvd_pkts[0]`, whichever flow it belongs
  to, whether or not `verify_pkt` took it, and after it was freed if it did.
  `acks_addressed_iff`: they go to senders of their flows exactly when that packet,
  or what an ack built in its buffer has made of it, names one.

  The window is computed from the arrays `last_pkt_recvd` and `last_pkt_read`
  without their index, so from the difference of two addresses.
  `window_iff_layout`: it is right exactly when that constant is the occupancy of
  the flow's buffer, up to the width of the field; and all acks carry the same.
-/

import DatacenterNetworking.Dpdk.Burst
import DatacenterNetworking.Dpdk.HeaderChecksum
import Mathlib.Data.Int.ModEq

namespace DatacenterNetworking
namespace Dpdk

open Receiver

/-! ## The address of an ack -/

/-- A packet of the burst that verifies as data of the flow comes from `src`. -/
def Burst.HasSender (myEth : EtherAddr) (b : Burst) (f : Nat) (src : EtherAddr × UInt32) : Prop :=
  ∃ p ∈ b.rcvdPkts, verifyPkt myEth (b.mem p) = f + 1 ∧
    src = ((b.mem p).ether.srcAddr, (b.mem p).ipv4.srcAddr)

/-- Every ack of the iteration goes to such a sender. -/
def Receiver.AcksAddressed (st : Station) (r : Receiver) (b : Burst) : Prop :=
  ∀ t acks, iterate st r b = some (t, acks) → ∀ a ∈ acks,
    b.HasSender st.myEth a.1 (a.2.ether.dstAddr, a.2.ipv4.dstAddr)

/-- The buffer of `pkt` is used for the ack of `f` or for one before it. -/
def Burst.Reuses (myEth : EtherAddr) (b : Burst) (pkt f : Nat) : Prop :=
  ∃ g, g ≤ f ∧ b.Hears myEth g ∧ b.alloc g = pkt

/-- The first packet has the source of a packet of each flow heard from.  Where its buffer
    has been reused, the source is this station's MAC and the first packet's destination. -/
def Burst.FirstIsSender (myEth : EtherAddr) (b : Burst) : Prop :=
  ∀ pkt ∈ b.rcvdPkts.head?, ∀ f, b.Hears myEth f →
    (¬ b.Reuses myEth pkt f →
      b.HasSender myEth f ((b.mem pkt).ether.srcAddr, (b.mem pkt).ipv4.srcAddr)) ∧
    (b.Reuses myEth pkt f → b.HasSender myEth f (myEth, (b.mem pkt).ipv4.dstAddr))

theorem reused_iff {myEth : EtherAddr} {r : Receiver} {b : Burst} (h : ¬ b.Stops myEth)
    (pkt f : Nat) :
    reused b.alloc pkt (heard (b.taken myEth r)) f = true ↔ b.Reuses myEth pkt f := by
  simp only [reused, List.any_eq_true, decide_eq_true_eq, mem_heard_taken h, Burst.Reuses]
  exact ⟨fun ⟨g, hears, hle, heq⟩ => ⟨g, hle, hears, heq⟩,
    fun ⟨g, hle, hears, heq⟩ => ⟨g, hears, hle, heq⟩⟩

/-- One iteration. -/
theorem acksAddressed_iff {st : Station} {r t : Receiver} {b : Burst}
    (h : (Receiver.system st).step r b = some t) :
    AcksAddressed st r b ↔ b.Stops st.myEth ∨ b.FirstIsSender st.myEth := by
  obtain ⟨⟨t, acks⟩, hit, -⟩ := Option.map_eq_some_iff.mp h
  obtain ⟨-, ⟨hnone, hquiet⟩ | ⟨pkt, rest, hrcvd, hstop, hfids, -, hacks⟩⟩ := iterate_spec hit
  · refine iff_of_true (fun t' acks' hit' a ha => ?_) (hquiet.symm.imp_right fun hnil => ?_)
    · cases hit.symm.trans hit'
      rw [hnone] at ha
      cases ha
    · intro pkt hpkt
      rw [hnil] at hpkt
      cases hpkt
  · have hdst : ∀ a ∈ acks, b.HasSender st.myEth a.1 (a.2.ether.dstAddr, a.2.ipv4.dstAddr) ↔
        (¬ b.Reuses st.myEth pkt a.1 →
          b.HasSender st.myEth a.1 ((b.mem pkt).ether.srcAddr, (b.mem pkt).ipv4.srcAddr)) ∧
        (b.Reuses st.myEth pkt a.1 →
          b.HasSender st.myEth a.1 (st.myEth, (b.mem pkt).ipv4.dstAddr)) := by
      intro a ha
      rw [(hacks a ha).dst, origin]
      by_cases hreused : b.Reuses st.myEth pkt a.1
      · rw [if_pos ((reused_iff hstop pkt a.1).mpr hreused)]
        simp [hreused]
      · rw [if_neg fun htrue => hreused ((reused_iff hstop pkt a.1).mp htrue)]
        simp [hreused]
    constructor
    · intro hall
      refine Or.inr fun pkt' hpkt' f hf => ?_
      rw [hrcvd] at hpkt'
      cases hpkt'
      -- every flow heard from has its ack
      have hmem : f ∈ acks.map Prod.fst := by
        rw [hfids]
        exact (mem_heard_taken hstop f).mpr hf
      obtain ⟨a, ha, rfl⟩ := List.mem_map.mp hmem
      exact (hdst a ha).mp (hall t acks hit a ha)
    · rintro (hs | hfirst) t' acks' hit' a ha
      · exact absurd hs hstop
      · cases hit.symm.trans hit'
        have hheard : b.Hears st.myEth a.1 := by
          rw [← mem_heard_taken hstop (r := r), ← hfids]
          exact List.mem_map_of_mem ha
        exact (hdst a ha).mpr (hfirst pkt (by rw [hrcvd]; rfl) a.1 hheard)

/-- The acks of a run go to senders of their flows iff in each of its bursts the first packet
    names one. -/
theorem acks_addressed_iff (st : Station) (r : Receiver) (bs : List Burst) :
    (Receiver.system st).Along (AcksAddressed st) r bs ↔
      (Receiver.system st).Along (fun _ b => b.Stops st.myEth ∨ b.FirstIsSender st.myEth) r bs :=
  Lts.along_congr (fun _ _ _ h => acksAddressed_iff h) bs

instance (myEth : EtherAddr) (b : Burst) (f : Nat) (src : EtherAddr × UInt32) :
    Decidable (b.HasSender myEth f src) :=
  inferInstanceAs (Decidable (∃ p ∈ b.rcvdPkts, _))

instance (myEth : EtherAddr) (b : Burst) : Decidable (b.Stops myEth) :=
  inferInstanceAs (Decidable (∃ p ∈ b.rcvdPkts, _))

/-- A data packet for the station with the client's destination address. -/
def dataPacket (host : UInt8) (fid : UInt16) (seq : UInt32) : Mbuf :=
  { Mbuf.zeroed with
    ether :=
      { dstAddr := serverEth
        srcAddr := Vector.replicate 6 host
        etherType := swap16 RTE_ETHER_TYPE_IPV4 }
    ipv4 := { Mbuf.zeroed.ipv4 with nextProtoId := IPPROTO_TCP, srcAddr := host.toUInt32 }
    tcp := { Mbuf.zeroed.tcp with dstPort := swap16 (5001 + fid), sentSeq := seq } }

/-- The first packets of flows 0 and 1 of two hosts, and fresh buffers for the acks. -/
def twoHosts : Burst where
  mem := fun a => if a = 0 then dataPacket 2 0 1 else dataPacket 3 1 1
  rcvdPkts := [0, 1]
  alloc := fun f => f + 2

/-- The ack of the second host's flow goes to the first. -/
theorem acks_stray :
    ¬ ∀ (st : Station) (bs : List Burst),
      (Receiver.system st).Along (AcksAddressed st) Receiver.init bs := by
  intro h
  have hgoes : ((Receiver.system ⟨serverEth, 0⟩).step Receiver.init twoHosts).isSome := by
    decide +kernel
  obtain ⟨t, ht⟩ := Option.isSome_iff_exists.mp hgoes
  have haddr := (acksAddressed_iff ht).mp (h ⟨serverEth, 0⟩ [twoHosts] t ht).1
  rcases haddr with hstop | hfirst
  · exact absurd hstop (by decide +kernel)
  · have hears : twoHosts.Hears serverEth 1 := ⟨by decide, 1, by decide, by decide +kernel⟩
    have hfresh : ¬ twoHosts.Reuses serverEth 0 1 := by
      rintro ⟨g, -, -, heq⟩
      simp [twoHosts] at heq
    exact absurd ((hfirst 0 rfl 1 hears).1 hfresh) (by decide +kernel)

/-! ## The window of an ack -/

/-- `last_pkt_recvd[f] - last_pkt_read[f]`. -/
def Receiver.occupancy (r : Receiver) (f : Nat) : Int :=
  (r.flows f).lastPktRecvd - r.lastPktRead f

/-- Every ack of the iteration advertises the room in its flow's buffer. -/
def Receiver.AdvertisesRoom (st : Station) (r : Receiver) (b : Burst) : Prop :=
  ∀ t acks, iterate st r b = some (t, acks) → ∀ a ∈ acks,
    a.2.tcp.rxWin.toNat = Server.window (t.occupancy a.1)

/-- The occupancy of a flow's buffer when its ack is built: what was received, or given up,
    less what was in order before the burst. -/
def Burst.occupancy (myEth : EtherAddr) (r : Receiver) (b : Burst) (f : Nat) : Int :=
  ((b.taken myEth r f).advance.lastPktRecvd : Int) - pred32 (r.flows f).nxtPktExpcd

/-- The distance of the two arrays is the occupancy of each flow that is acked, in the 16 bits
    of the field. -/
def Burst.LayoutFits (st : Station) (r : Receiver) (b : Burst) : Prop :=
  ∀ f, b.Hears st.myEth f → st.ptrDiff ≡ b.occupancy st.myEth r f [ZMOD 2 ^ 16]

/-- Windows for two distances agree when these do. -/
theorem window_eq_iff (d e : Int) : Server.window d = Server.window e ↔ d ≡ e [ZMOD 2 ^ 16] := by
  simp only [Server.window, Int.ModEq]
  omega

/-- Every ack carries the window of the layout. -/
theorem rxWin_of_iterate {st : Station} {r t : Receiver} {b : Burst} {acks : List (Nat × Mbuf)}
    (h : iterate st r b = some (t, acks)) :
    ∀ a ∈ acks, a.2.tcp.rxWin.toNat = Server.window st.ptrDiff := by
  intro a ha
  obtain ⟨-, ⟨hnone, -⟩ | ⟨pkt, rest, -, -, -, -, hacks⟩⟩ := iterate_spec h
  · rw [hnone] at ha
    cases ha
  · rw [(hacks a ha).rxWin, toNat_window]

/-- One iteration. -/
theorem advertisesRoom_iff {st : Station} {r t : Receiver} {b : Burst}
    (h : (Receiver.system st).step r b = some t) :
    AdvertisesRoom st r b ↔ b.Stops st.myEth ∨ b.LayoutFits st r := by
  obtain ⟨⟨t, acks⟩, hit, -⟩ := Option.map_eq_some_iff.mp h
  obtain ⟨hread, ⟨hnone, hquiet⟩ | ⟨pkt, rest, hrcvd, hstop, hfids, hflows, hacks⟩⟩ :=
    iterate_spec hit
  · refine iff_of_true (fun t' acks' hit' a ha => ?_)
      (hquiet.symm.imp_right fun hnil f hf => ?_)
    · cases hit.symm.trans hit'
      rw [hnone] at ha
      cases ha
    · obtain ⟨-, p, hp, -⟩ := hf
      rw [hnil] at hp
      cases hp
  · have hroom : ∀ a ∈ acks,
        a.2.tcp.rxWin.toNat = Server.window (t.occupancy a.1) ↔
          st.ptrDiff ≡ b.occupancy st.myEth r a.1 [ZMOD 2 ^ 16] := by
      intro a ha
      have hmem : a.1 ∈ heard (b.taken st.myEth r) := hfids ▸ List.mem_map_of_mem ha
      rw [rxWin_of_iterate hit a ha, window_eq_iff, Receiver.occupancy, hflows, if_pos hmem, hread]
      rfl
    constructor
    · intro hall
      refine Or.inr fun f hf => ?_
      have hmem : f ∈ acks.map Prod.fst := by
        rw [hfids]
        exact (mem_heard_taken hstop f).mpr hf
      obtain ⟨a, ha, rfl⟩ := List.mem_map.mp hmem
      exact (hroom a ha).mp (hall t acks hit a ha)
    · rintro (hs | hfits) t' acks' hit' a ha
      · exact absurd hs hstop
      · cases hit.symm.trans hit'
        have hheard : b.Hears st.myEth a.1 := by
          rw [← mem_heard_taken hstop (r := r), ← hfids]
          exact List.mem_map_of_mem ha
        exact (hroom a ha).mpr (hfits a.1 hheard)

/-- The acks of a run advertise the room in their flows' buffers iff at each of them the layout
    happens to be the occupancy; whatever the occupancies, all carry one window. -/
theorem window_iff_layout (st : Station) (r : Receiver) (bs : List Burst) :
    ((Receiver.system st).Along (AdvertisesRoom st) r bs ↔
      (Receiver.system st).Along (fun r b => b.Stops st.myEth ∨ b.LayoutFits st r) r bs) ∧
    (Receiver.system st).Along (fun r b => ∀ t acks, iterate st r b = some (t, acks) →
      ∀ a ∈ acks, a.2.tcp.rxWin.toNat = Server.window st.ptrDiff) r bs := by
  exact ⟨Lts.along_congr (fun _ _ _ h => advertisesRoom_iff h) bs,
    Lts.along_of_step (fun _ _ _ _ _ _ hit => rxWin_of_iterate hit) bs⟩

/-- The first packet of flow 0, and a burst of the first two. -/
def burstOfOne : Burst where
  mem := fun _ => dataPacket 2 0 1
  rcvdPkts := [0]
  alloc := fun f => f + 2

def burstOfTwo : Burst where
  mem := fun a => dataPacket 2 0 (if a = 0 then 1 else 2)
  rcvdPkts := [0, 1]
  alloc := fun f => f + 2

/-- Wherever the two arrays lie, the ack of one of these bursts has the wrong window: one packet
    is in the buffer after the first, two after the second. -/
theorem no_layout_fits :
    ¬ ∃ ptrDiff : Int, ∀ bs : List Burst,
      (Receiver.system ⟨serverEth, ptrDiff⟩).Along (AdvertisesRoom ⟨serverEth, ptrDiff⟩)
        Receiver.init bs := by
  rintro ⟨ptrDiff, h⟩
  have hgoes₁ : ((Receiver.system ⟨serverEth, ptrDiff⟩).step Receiver.init burstOfOne).isSome := rfl
  have hgoes₂ : ((Receiver.system ⟨serverEth, ptrDiff⟩).step Receiver.init burstOfTwo).isSome := rfl
  obtain ⟨t₁, ht₁⟩ := Option.isSome_iff_exists.mp hgoes₁
  obtain ⟨t₂, ht₂⟩ := Option.isSome_iff_exists.mp hgoes₂
  have hroom₁ := (advertisesRoom_iff ht₁).mp (h [burstOfOne] t₁ ht₁).1
  have hroom₂ := (advertisesRoom_iff ht₂).mp (h [burstOfTwo] t₂ ht₂).1
  have hstop₁ : ¬ burstOfOne.Stops serverEth := by decide +kernel
  have hstop₂ : ¬ burstOfTwo.Stops serverEth := by decide +kernel
  have hears₁ : burstOfOne.Hears serverEth 0 := ⟨by decide, 0, by decide, by decide +kernel⟩
  have hears₂ : burstOfTwo.Hears serverEth 0 := ⟨by decide, 0, by decide, by decide +kernel⟩
  have hocc₁ : burstOfOne.occupancy serverEth Receiver.init 0 = 1 := by decide +kernel
  have hocc₂ : burstOfTwo.occupancy serverEth Receiver.init 0 = 2 := by decide +kernel
  have hfits₁ : ptrDiff ≡ burstOfOne.occupancy serverEth Receiver.init 0 [ZMOD 2 ^ 16] :=
    hroom₁.resolve_left hstop₁ 0 hears₁
  have hfits₂ : ptrDiff ≡ burstOfTwo.occupancy serverEth Receiver.init 0 [ZMOD 2 ^ 16] :=
    hroom₂.resolve_left hstop₂ 0 hears₂
  rw [hocc₁] at hfits₁
  rw [hocc₂] at hfits₂
  have habsurd : (1 : Int) ≡ 2 [ZMOD 2 ^ 16] := hfits₁.symm.trans hfits₂
  revert habsurd
  decide

end Dpdk
end DatacenterNetworking
