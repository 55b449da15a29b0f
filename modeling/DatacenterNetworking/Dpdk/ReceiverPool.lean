/-
  DatacenterNetworking.Dpdk.ReceiverPool

  The receive buffers of the server.  A packet that is taken is passed to
  `rte_pktmbuf_free` in the loop over the burst; one that `verify_pkt` rejects is
  left with `continue` before that, and nothing else frees it.  (The sender frees
  what its receive loop has looked at, whatever `parse_packet` returned.)

  `held_run`: what the server holds after a run is what was rejected in it.
  `conserved_iff`: so it holds nothing exactly as long as everything verifies.
-/

import DatacenterNetworking.Dpdk.Burst
import DatacenterNetworking.Dpdk.HeaderChecksum
import Mathlib.Data.List.Nodup

namespace DatacenterNetworking
namespace Dpdk

/-- The buffers of the burst that the loop frees. -/
def Burst.freed (myEth : EtherAddr) (r : Receiver) (b : Burst) : List Nat :=
  (Receiver.intake myEth b.mem b.rcvdPkts r.readBuf.flows).2.1

/-- The packets of the burst that are not for this program. -/
def Burst.rejected (myEth : EtherAddr) (b : Burst) : List Nat :=
  b.rcvdPkts.filter fun p => verifyPkt myEth (b.mem p) = 0

/-- The receiver, with the buffers that `rte_eth_rx_burst` gave it and it has not freed. -/
structure Holder where
  receiver : Receiver
  held : List Nat

namespace Holder

/-- Before the loop. -/
def init : Holder := ⟨Receiver.init, []⟩

/-- One iteration.  Neither the port nor the pool hands out a buffer that is held. -/
def iterate (st : Station) (s : Holder) (b : Burst) : Option Holder :=
  if (∀ p ∈ b.rcvdPkts, p ∉ s.held) ∧ ∀ f ∈ List.range MAX_FLOW_NUM, b.alloc f ∉ s.held then
    (Receiver.iterate st s.receiver b).map fun next =>
      { receiver := next.1
        held := s.held ++ b.rcvdPkts.filter fun p => p ∉ b.freed st.myEth s.receiver }
  else none

/-- The loop of the receiver, with what it holds. -/
def system (st : Station) : Lts Holder Burst where
  step := iterate st

/-- Every buffer of the burst is freed once in the iteration. -/
def FreesOnce (st : Station) (s : Holder) (b : Burst) : Prop :=
  ∀ p ∈ b.rcvdPkts, (b.freed st.myEth s.receiver).count p = 1

/-! ## What is freed -/

/-- The loop over a burst frees what verifies. -/
theorem intake_freed {myEth : EtherAddr} {mem : Memory} (rcvd : List Nat) (flows : Nat → SrvFlow)
    (hgo : (Receiver.intake myEth mem rcvd flows).2.2 = false) :
    (Receiver.intake myEth mem rcvd flows).2.1 =
      rcvd.filter fun p => verifyPkt myEth (mem p) ≠ 0 := by
  induction rcvd generalizing flows with
  | nil => rfl
  | cons p rest ih =>
    rw [Receiver.intake_cons] at hgo ⊢
    split_ifs at hgo ⊢ with hzero hstop
    · rw [List.filter_cons_of_neg (by simpa using hzero)]
      exact ih flows hgo
    · rw [List.filter_cons_of_pos (by simpa using hzero)]
      exact congrArg (p :: ·) (ih _ hgo)

section Step

variable {st : Station} {s t : Holder} {b : Burst}

theorem freed_eq (hgo : ¬ b.Stops st.myEth) :
    b.freed st.myEth s.receiver = b.rcvdPkts.filter fun p => verifyPkt st.myEth (b.mem p) ≠ 0 :=
  intake_freed _ _ (Bool.eq_false_iff.mpr fun hstop => hgo ((Receiver.intake_stopped _ _).mp hstop))

/-- An iteration adds the rejected packets of its burst to what is held. -/
theorem iterate_held (h : iterate st s b = some t) (hgo : ¬ b.Stops st.myEth) :
    t.held = s.held ++ b.rejected st.myEth := by
  rw [iterate] at h
  split_ifs at h
  obtain ⟨next, -, rfl⟩ := Option.map_eq_some_iff.mp h
  refine congrArg (s.held ++ ·) (List.filter_congr fun p hp => ?_)
  simp only [freed_eq hgo, List.mem_filter, hp, true_and, decide_eq_true_iff, not_not]

/-- The addresses of a burst are different. -/
theorem iterate_nodup (h : iterate st s b = some t) : b.rcvdPkts.Nodup := by
  rw [iterate] at h
  split_ifs at h
  obtain ⟨next, hnext, -⟩ := Option.map_eq_some_iff.mp h
  rw [Receiver.iterate] at hnext
  split_ifs at hnext with hburst
  exact hburst.2.2

theorem rejected_eq_nil :
    b.rejected st.myEth = [] ↔ ∀ p ∈ b.rcvdPkts, verifyPkt st.myEth (b.mem p) ≠ 0 := by
  simp [Burst.rejected, List.filter_eq_nil_iff]

theorem freesOnce_iff (h : iterate st s b = some t) (hgo : ¬ b.Stops st.myEth) :
    FreesOnce st s b ↔ b.rejected st.myEth = [] := by
  have hcount : ∀ p ∈ b.rcvdPkts, (b.freed st.myEth s.receiver).count p = 1 ↔
      verifyPkt st.myEth (b.mem p) ≠ 0 := by
    intro p hp
    rw [freed_eq hgo]
    by_cases hzero : verifyPkt st.myEth (b.mem p) = 0
    · have hnot : p ∉ b.rcvdPkts.filter fun p => verifyPkt st.myEth (b.mem p) ≠ 0 := by
        simp [hzero]
      rw [List.count_eq_zero_of_not_mem hnot]
      exact iff_of_false Nat.zero_ne_one (not_not.mpr hzero)
    · have hone := List.nodup_iff_count_eq_one.mp (iterate_nodup h) p hp
      rw [List.count_filter (by simpa using hzero), hone]
      exact iff_of_true rfl hzero
  rw [rejected_eq_nil]
  exact forall₂_congr hcount

end Step

/-! ## Runs -/

/-- After a run the server holds every packet that was rejected in it. -/
theorem held_run {st : Station} {s t : Holder} {bs : List Burst}
    (hrun : (system st).run s bs = some t) (hgo : ∀ b ∈ bs, ¬ b.Stops st.myEth) :
    t.held = s.held ++ bs.flatMap fun b => b.rejected st.myEth := by
  induction bs generalizing s with
  | nil =>
    cases hrun
    exact (List.append_nil _).symm
  | cons b bs ih =>
    obtain ⟨s₁, hstep, hrest⟩ := Lts.run_cons_eq_some.mp hrun
    obtain ⟨hb, hbs⟩ := List.forall_mem_cons.mp hgo
    rw [ih hrest hbs, iterate_held hstep hb, List.flatMap_cons, List.append_assoc]

/-- In runs that end without a stop packet: nothing is held at the head of the loop, and every
    buffer is freed once, exactly when every packet received verifies. -/
theorem conserved_iff (st : Station) (bs : List Burst) (hgo : ∀ b ∈ bs, ¬ b.Stops st.myEth) :
    ((system st).Always (fun s => s.held = []) init bs ∧
      (system st).Along (FreesOnce st) init bs) ↔
      (system st).Along (fun _ b => ∀ p ∈ b.rcvdPkts, verifyPkt st.myEth (b.mem p) ≠ 0)
        init bs := by
  have hgoAlong : (system st).Along (fun _ b => ¬ b.Stops st.myEth) init bs :=
    Lts.along_of_forall_mem (P := fun b : Burst => ¬ b.Stops st.myEth) hgo
  refine Lts.always_and_along_iff_of_along (M := system st) (J := fun s : Holder => s.held = [])
    (P := fun s : Holder => s.held = []) (fun _ h => h)
    (fun s b t hs hb hstep hverify => ?_) (fun s b t hs hb hstep ht _ => ?_) bs rfl hgoAlong
  · have hnone := rejected_eq_nil.mpr hverify
    refine ⟨?_, (freesOnce_iff hstep hb).mpr hnone⟩
    rw [iterate_held hstep hb, hs, hnone]
    rfl
  · rw [iterate_held hstep hb, hs] at ht
    exact rejected_eq_nil.mp ht

/-- The port of the server, and a burst of one packet that was sent to another station. -/
def station : Station := ⟨serverEth, 0⟩

def foreignBurst (addr : Nat) : Burst := ⟨fun _ => Mbuf.zeroed, [addr], fun f => 100 + f⟩

/-- Data packet `seq` of flow `fid`, from another station. -/
def dataFrame (fid : UInt64) (seq : UInt32) : Mbuf :=
  (constructPkt (Vector.replicate 6 0) 0 0 fid seq (some Mbuf.zeroed)).getD Mbuf.zeroed

/-- The packets of two flows: the first of each, and then the second of the one and two of the
    other, in buffers two of which held the first. -/
def dataBursts : List Burst :=
  [{ mem := fun p => if p = 7 then dataFrame 0 1 else dataFrame 1 1
     rcvdPkts := [7, 8]
     alloc := fun f => 100 + f },
   { mem := fun p => if p = 7 then dataFrame 0 2 else if p = 8 then dataFrame 1 2 else dataFrame 1 3
     rcvdPkts := [8, 7, 9]
     alloc := fun f => 100 + f }]

theorem verifyPkt_dataBursts : ∀ b ∈ dataBursts, ∀ p ∈ b.rcvdPkts,
    verifyPkt station.myEth (b.mem p) = 1 ∨ verifyPkt station.myEth (b.mem p) = 2 := by
  decide +kernel

theorem conserved_dataBursts :
    ((system station).run init dataBursts).isSome ∧
      (system station).Always (fun s => s.held = []) init dataBursts ∧
      (system station).Along (FreesOnce station) init dataBursts := by
  refine ⟨by decide +kernel, (conserved_iff station dataBursts ?_).mpr ?_⟩
  · rintro b hb ⟨p, hp, hstop⟩
    rcases verifyPkt_dataBursts b hb p hp with hflow | hflow
    all_goals
      rw [hflow] at hstop
      cases hstop
  · refine Lts.along_of_forall_mem
      (P := fun b : Burst => ∀ p ∈ b.rcvdPkts, verifyPkt station.myEth (b.mem p) ≠ 0)
      fun b hb p hp => ?_
    have hflow := verifyPkt_dataBursts b hb p hp
    omega

/-- Two bursts with a packet each for another station, and two buffers are held. -/
theorem foreign_held :
    (((system station).run init [foreignBurst 0, foreignBurst 1]).map fun s => s.held) =
      some [0, 1] ∧
    ¬ (system station).Always (fun s => s.held = []) init [foreignBurst 0] := by
  refine ⟨by decide +kernel, fun hall => ?_⟩
  obtain ⟨t, hrun, hheld⟩ := Option.map_eq_some_iff.mp
    (show (((system station).run init [foreignBurst 0]).map fun s => s.held) = some [0] by
      decide +kernel)
  have hnil := hall.last hrun
  rw [hheld] at hnil
  cases hnil

end Holder

end Dpdk
end DatacenterNetworking
