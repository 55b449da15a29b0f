/-
  DatacenterNetworking.Dpdk.Sender

  The sender against any peer: the packets it takes may hold any `recv_ack` and any
  window.  (`parse_packet` stores `recv_ack` through a pointer to 64 bits; what it
  writes behind the variable is overwritten, or not used.)

  `processes_iff`: the work on a packet ends unless it acks the largest `uint32_t`,
  in which case the loop that releases the buffers never does.

  `outstanding_or_closed`: if nothing is acked that was not sent, then after the send
  step every flow that is not done has a packet to be acked, or the peer has closed
  its window.  There is no probe of a closed window.
-/

import DatacenterNetworking.Dpdk.Burst
import DatacenterNetworking.Dpdk.HeaderChecksum

namespace DatacenterNetworking
namespace Dpdk

/-- `parse_packet`: 0, or the flow and one. -/
def parsePacket (myEth : EtherAddr) (pkt : Mbuf) : Nat := parseHeaders dataPorts myEth pkt

theorem parsePacket_le (myEth : EtherAddr) (pkt : Mbuf) : parsePacket myEth pkt ≤ MAX_FLOW_NUM := by
  have hvalues : ∀ n ∈ 0 :: dataPorts.map Prod.snd, n ≤ MAX_FLOW_NUM := by decide
  exact hvalues _ (parseHeaders_mem _ myEth pkt)

/-! ## The loop that releases the buffers -/

/-- The slots of `buf` of a flow, and of all flows. -/
abbrev Slots := Nat → Option Nat

/-- `for (i = ...; i <= recv_ack; i++)` over `buf`; `none` when it is not over in `fuel`
    rounds. -/
def releaseLoop (recvAck : Nat) : Nat → Nat → Slots → Option Slots
  | 0, i, buf => if i ≤ recvAck then none else some buf
  | fuel + 1, i, buf =>
      if i ≤ recvAck then releaseLoop recvAck fuel (succ32 i) (Function.update buf (slot i) none)
      else some buf

/-- Below the largest `uint32_t` the counter passes `recv_ack`. -/
theorem releaseLoop_ends {recvAck : Nat} (hack : recvAck < 2 ^ 32 - 1) (fuel i : Nat)
    (buf : Slots) (hfuel : recvAck < i + fuel) : (releaseLoop recvAck fuel i buf).isSome := by
  induction fuel generalizing i buf with
  | zero =>
    rw [releaseLoop, if_neg (by omega)]
    rfl
  | succ fuel ih =>
    rw [releaseLoop]
    split_ifs with hi
    · rw [succ32_of_lt (by omega)]
      exact ih (i + 1) _ (by omega)
    · rfl

/-- At the largest it never does. -/
theorem releaseLoop_endless (fuel i : Nat) (buf : Slots) (hi : i < 2 ^ 32) :
    releaseLoop (2 ^ 32 - 1) fuel i buf = none := by
  induction fuel generalizing i buf with
  | zero => rw [releaseLoop, if_pos (by omega)]
  | succ fuel ih =>
    rw [releaseLoop, if_pos (by omega)]
    exact ih (succ32 i) _ (succ32_lt i)

/-! ## A packet of the receive loop -/

namespace Client

/-- The work on one packet, `none` when the loop in it is not over in `fuel` rounds. -/
def process (fuel : Nat) (myEth : EtherAddr) (c : Client) (buf : Nat → Slots) (pkt : Mbuf) :
    Option (Client × (Nat → Slots)) :=
  match parsePacket myEth pkt with
  | 0 => some (c, buf)
  | rfid + 1 =>
      let flow : CliFlow :=
        { c.flows rfid with recvAck := pkt.tcp.recvAck.toNat, rcvWnd := pkt.tcp.rxWin.toNat }
      if flow.lastPktAcked < flow.recvAck then
        (releaseLoop flow.recvAck fuel (succ32 flow.lastPktAcked) (buf rfid)).map fun slots =>
          (c.setFlow rfid
            { flow with
              lastPktAcked := flow.recvAck
              lastPktSent :=
                if flow.lastPktSent < flow.recvAck then flow.recvAck else flow.lastPktSent },
            Function.update buf rfid slots)
      else some (c.setFlow rfid flow, buf)

/-- The work on the packet ends. -/
def Processes (myEth : EtherAddr) (c : Client) (pkt : Mbuf) : Prop :=
  ∀ buf, ∃ fuel, (c.process fuel myEth buf pkt).isSome

/-- The packet acks the largest `uint32_t`, and does so for the first time. -/
def AcksLargest (myEth : EtherAddr) (c : Client) (pkt : Mbuf) : Prop :=
  ∃ rfid, parsePacket myEth pkt = rfid + 1 ∧ pkt.tcp.recvAck.toNat = 2 ^ 32 - 1 ∧
    (c.flows rfid).lastPktAcked < 2 ^ 32 - 1

theorem process_zero {myEth : EtherAddr} {pkt : Mbuf} (h : parsePacket myEth pkt = 0) (fuel : Nat)
    (c : Client) (buf : Nat → Slots) : c.process fuel myEth buf pkt = some (c, buf) := by
  rw [process, h]

/-- A packet for flow `rfid` that acks nothing new leaves the loop out. -/
theorem process_old {myEth : EtherAddr} {c : Client} {pkt : Mbuf} {rfid : Nat}
    (h : parsePacket myEth pkt = rfid + 1)
    (hold : ¬ (c.flows rfid).lastPktAcked < pkt.tcp.recvAck.toNat) (fuel : Nat)
    (buf : Nat → Slots) :
    c.process fuel myEth buf pkt =
      ((c.flows rfid).recv pkt.tcp.recvAck.toNat pkt.tcp.rxWin.toNat).map fun f =>
        (c.setFlow rfid f, buf) := by
  rw [process, h, CliFlow.recv, if_neg hold]
  exact if_neg hold

/-- Otherwise it is the loop that decides. -/
theorem process_new {myEth : EtherAddr} {c : Client} {pkt : Mbuf} {rfid : Nat}
    (h : parsePacket myEth pkt = rfid + 1)
    (hnew : (c.flows rfid).lastPktAcked < pkt.tcp.recvAck.toNat) (fuel : Nat)
    (buf : Nat → Slots) :
    c.process fuel myEth buf pkt =
      (releaseLoop pkt.tcp.recvAck.toNat fuel (succ32 (c.flows rfid).lastPktAcked)
        (buf rfid)).map fun slots =>
          (c.setFlow rfid
            { c.flows rfid with
              recvAck := pkt.tcp.recvAck.toNat
              rcvWnd := pkt.tcp.rxWin.toNat
              lastPktAcked := pkt.tcp.recvAck.toNat
              lastPktSent :=
                if (c.flows rfid).lastPktSent < pkt.tcp.recvAck.toNat then pkt.tcp.recvAck.toNat
                else (c.flows rfid).lastPktSent },
            Function.update buf rfid slots) := by
  rw [process, h]
  exact if_pos hnew

/-- What the step function makes of an ack is what the loop leaves when it ends. -/
theorem process_eq_recvAck {myEth : EtherAddr} {c c' : Client} {pkt : Mbuf} {rfid : Nat}
    (hpc : c.pc = .recv) (h : parsePacket myEth pkt = rfid + 1) (buf : Nat → Slots) :
    (∃ fuel buf', c.process fuel myEth buf pkt = some (c', buf')) ↔
      c.recvAck ⟨rfid, pkt.tcp.recvAck.toNat, pkt.tcp.rxWin.toNat⟩ = some c' := by
  have hfid : rfid < MAX_FLOW_NUM := by
    have hle := parsePacket_le myEth pkt
    omega
  rw [recvAck, if_pos ⟨hpc, hfid⟩]
  by_cases hnew : (c.flows rfid).lastPktAcked < pkt.tcp.recvAck.toNat
  -- an ack that is new releases the slots up to it; `2^32 - 1` is never reached
  · simp only [process_new h hnew, CliFlow.recv, if_pos hnew]
    have hack := pkt.tcp.recvAck.toNat_lt
    by_cases hmax : pkt.tcp.recvAck.toNat = 2 ^ 32 - 1
    · rw [if_pos hmax]
      simp only [hmax, releaseLoop_endless _ _ _ (succ32_lt _)]
      simp
    · rw [if_neg hmax]
      obtain ⟨slots, hends⟩ := Option.isSome_iff_exists.mp
        (releaseLoop_ends (by omega : pkt.tcp.recvAck.toNat < 2 ^ 32 - 1)
          (pkt.tcp.recvAck.toNat + 1) (succ32 (c.flows rfid).lastPktAcked) (buf rfid) (by omega))
      constructor
      · rintro ⟨fuel, buf', hproc⟩
        obtain ⟨slots', -, heq⟩ := Option.map_eq_some_iff.mp hproc
        cases heq
        rfl
      · intro hrecv
        refine ⟨pkt.tcp.recvAck.toNat + 1, Function.update buf rfid slots, ?_⟩
        rw [hends]
        cases hrecv
        rfl
  · simp only [process_old h hnew]
    constructor
    · rintro ⟨-, buf', hproc⟩
      obtain ⟨f, hf, heq⟩ := Option.map_eq_some_iff.mp hproc
      cases heq
      rw [hf]
      rfl
    · intro hrecv
      obtain ⟨f, hf, rfl⟩ := Option.map_eq_some_iff.mp hrecv
      exact ⟨0, buf, by rw [hf]; rfl⟩

/-- One packet, in any state. -/
theorem processes_iff_not_acksLargest (myEth : EtherAddr) (c : Client) (pkt : Mbuf) :
    c.Processes myEth pkt ↔ ¬ c.AcksLargest myEth pkt := by
  -- the release loop runs only for a new ack, and is endless only for the largest
  cases h : parsePacket myEth pkt with
  | zero =>
    refine iff_of_true (fun buf => ⟨0, ?_⟩) ?_
    · rw [process_zero h]
      rfl
    · rintro ⟨rfid, hparse, -⟩
      omega
  | succ rfid =>
    by_cases hnew : (c.flows rfid).lastPktAcked < pkt.tcp.recvAck.toNat
    · have hack := pkt.tcp.recvAck.toNat_lt
      by_cases hmax : pkt.tcp.recvAck.toNat = 2 ^ 32 - 1
      · refine iff_of_false (fun hends => ?_) (not_not_intro ⟨rfid, h, hmax, hmax ▸ hnew⟩)
        obtain ⟨fuel, hsome⟩ := hends fun _ _ => none
        rw [process_new h hnew, hmax, releaseLoop_endless _ _ _ (succ32_lt _)] at hsome
        cases hsome
      · refine iff_of_true (fun buf => ⟨pkt.tcp.recvAck.toNat + 1, ?_⟩) ?_
        · rw [process_new h hnew, Option.isSome_map]
          exact releaseLoop_ends (by omega) _ _ _ (by omega)
        · rintro ⟨-, -, hlargest, -⟩
          exact hmax hlargest
    · refine iff_of_true (fun buf => ⟨0, ?_⟩) ?_
      · rw [process_old h hnew, CliFlow.recv, if_neg hnew]
        rfl
      · rintro ⟨rfid', hparse, hlargest, hacked⟩
        obtain rfl : rfid' = rfid := by omega
        omega

end Client

/-! ## Runs against any peer -/

/-- A step of the sender's loop, or a packet of a burst. -/
inductive SenderAct where
  | step (clock stamp : Nat → Nat)
  | packet (pkt : Mbuf)

/-- The sender.  A packet that is not for it is dropped. -/
def senderStep (cfg : Config) (myEth : EtherAddr) (c : Client) : SenderAct → Option Client
  | .step clock stamp => (c.step cfg clock stamp).map Prod.fst
  | .packet pkt =>
      match parsePacket myEth pkt with
      | 0 => if c.pc = .recv then some c else none
      | rfid + 1 => c.recvAck ⟨rfid, pkt.tcp.recvAck.toNat, pkt.tcp.rxWin.toNat⟩

def sender (cfg : Config) (myEth : EtherAddr) : Lts Client SenderAct where
  step := senderStep cfg myEth

/-- In every state the sender reaches, the work on a packet ends unless it acks the largest
    `uint32_t` for the first time. -/
theorem processes_iff (cfg : Config) (myEth : EtherAddr) (as : List SenderAct) :
    (sender cfg myEth).Always
      (fun c => ∀ pkt, c.Processes myEth pkt ↔ ¬ c.AcksLargest myEth pkt) Client.init as :=
  Lts.always_of_along (I := fun _ => True) (G := fun _ _ => True) (fun _ _ _ _ _ _ => trivial)
    (fun c _ pkt => Client.processes_iff_not_acksLargest myEth c pkt) trivial
    (Lts.along_of_step (fun _ _ _ _ => trivial) as)

/-- One flow of `numPing` packets. -/
def oneFlow (numPing : Nat) (h : numPing ≤ 2 ^ 20) : Config where
  flowNum := 1
  flowSize := numPing * 64
  ptrDiff := 0
  flowNum_le := one_le_MAX_FLOW_NUM
  flowSize_int := by omega

/-- A packet for flow 0 of the station with the address of zeros. -/
def ackPacket (recvAck : UInt32) (rxWin : UInt16) : Mbuf :=
  { Mbuf.zeroed with
    ether := { Mbuf.zeroed.ether with etherType := swap16 RTE_ETHER_TYPE_IPV4 }
    ipv4 := { Mbuf.zeroed.ipv4 with nextProtoId := IPPROTO_TCP }
    tcp := { Mbuf.zeroed.tcp with dstPort := swap16 5001, recvAck := recvAck, rxWin := rxWin } }

/-- An iteration of the sender with one flow, up to the receive loop. -/
def untilRecv : List SenderAct := List.replicate 6 (.step (fun _ => 0) fun _ => 0)

/-- The sender that waits for its first ack hangs on it. -/
theorem hangs_on_acksLargest :
    ¬ ∀ (cfg : Config) (myEth : EtherAddr) (as : List SenderAct),
      (sender cfg myEth).Always
        (fun c => c.pc = .recv → ∀ pkt, c.Processes myEth pkt) Client.init as := by
  intro h
  have hrun : ((sender (oneFlow 1 (by decide)) (Vector.replicate 6 0)).run Client.init
      untilRecv).any
        (fun c => c.pc = .recv ∧ (c.flows 0).lastPktAcked < 2 ^ 32 - 1) = true := by
    decide +kernel
  obtain ⟨c, hc, hwaits⟩ := (Option.any_eq_true _ _).mp hrun
  obtain ⟨hpc, hacked⟩ := of_decide_eq_true hwaits
  have hends := (h _ _ _).last hc hpc (ackPacket 0xFFFFFFFF 128)
  exact (Client.processes_iff_not_acksLargest _ c _).mp hends
    ⟨0, by decide +kernel, by decide +kernel, hacked⟩

/-! ## A closed window -/

section Window

variable {c c' : CliFlow} {seqs : List Nat} {numPing : Nat}

theorem sendLoop_rcvWnd (fuel : Nat) (c : CliFlow) :
    (CliFlow.sendLoop fuel c).1.rcvWnd = c.rcvWnd := by
  induction fuel generalizing c with
  | zero => rfl
  | succ fuel ih =>
    rw [CliFlow.sendLoop]
    split_ifs with hgo
    · exact ih { c with lastPktSent := c.lastPktSent + 1 }
    · rfl

/-- The send step ends where the window is used up or everything written is sent. -/
theorem send_stops {stamp : Nat → Nat} (h : c.send stamp = some (c', seqs)) :
    c'.lastPktAcked = c.lastPktAcked ∧ c'.lastPktWritten = c.lastPktWritten ∧
      c'.rcvWnd = c.rcvWnd ∧ c.lastPktSent ≤ c'.lastPktSent ∧
      (c'.lastPktSent ≤ c.lastPktWritten ∨ c'.lastPktSent = c.lastPktSent) ∧
      ¬ ((c'.lastPktSent + (2 ^ 32 - c'.lastPktAcked)) % 2 ^ 32 < c'.rcvWnd ∧
        c'.lastPktSent < c'.lastPktWritten) := by
  obtain ⟨hacked, hwritten, hle, hend, -⟩ :=
    sendLoop_spec (c.lastPktWritten - c.lastPktSent) c
  have hstops := sendLoop_stops (c.lastPktWritten - c.lastPktSent) c le_rfl
  have hwnd := sendLoop_rcvWnd (c.lastPktWritten - c.lastPktSent) c
  simp only [CliFlow.send] at h
  split_ifs at h
  cases h
  refine ⟨hacked, hwritten, hwnd, hle, hend, fun hgo => hstops ?_⟩
  simp only [hacked, hwritten, hwnd] at hgo
  exact hgo

end Window

/-- Nothing in the packet acks what was not sent. -/
def AcksSent (myEth : EtherAddr) (c : Client) : SenderAct → Prop
  | .step _ _ => True
  | .packet pkt =>
      parsePacket myEth pkt = 0 ∨
        pkt.tcp.recvAck.toNat ≤ (c.flows (parsePacket myEth pkt - 1)).lastPktSent

instance (myEth : EtherAddr) (c : Client) : ∀ a, Decidable (AcksSent myEth c a)
  | .step _ _ => isTrue trivial
  | .packet _ => inferInstanceAs (Decidable (_ ∨ _))

/-- What is acked is sent; and at the send step, what is written is what `populate` wrote, and
    the flows before `fid` have sent what they can. -/
structure Sending (cfg : Config) (c : Client) : Prop where
  acked_le : ∀ f, (c.flows f).lastPktAcked ≤ (c.flows f).lastPktSent
  sent_lt : ∀ f, (c.flows f).lastPktSent < 2 ^ 32
  written_lt : ∀ f, (c.flows f).lastPktWritten < 2 ^ 32
  written : ∀ fid, c.pc = .send fid → ∀ f < cfg.flowNum,
    (c.flows f).lastPktWritten = ((c.flows f).populate cfg.numPing).lastPktWritten
  stopped : ∀ fid, c.pc = .send fid → ∀ f < cfg.flowNum, f < fid →
    ¬ (((c.flows f).lastPktSent + (2 ^ 32 - (c.flows f).lastPktAcked)) % 2 ^ 32 <
        (c.flows f).rcvWnd ∧ (c.flows f).lastPktSent < (c.flows f).lastPktWritten)

theorem numPing_lt (cfg : Config) : cfg.numPing < 2 ^ 32 := by
  have hpos := Int.emod_nonneg (cfg.flowSize.tdiv payloadLen) (by decide : (2 : Int) ^ 32 ≠ 0)
  have hlt := Int.emod_lt_of_pos (cfg.flowSize.tdiv payloadLen) (by decide : (0 : Int) < 2 ^ 32)
  rw [Config.numPing]
  omega

theorem sending_init (cfg : Config) : Sending cfg Client.init where
  acked_le := fun _ => le_rfl
  sent_lt := fun _ => Nat.two_pow_pos 32
  written_lt := fun _ => Nat.two_pow_pos 32
  written := fun _ h => by cases h
  stopped := fun _ h => by cases h

/-- Away from the send step only the indices matter. -/
theorem sending_elsewhere {cfg : Config} {c c' : Client} (h : Sending cfg c)
    (hpc : ∀ fid, c'.pc ≠ .send fid)
    (hflows : ∀ f, (c'.flows f).lastPktAcked ≤ (c'.flows f).lastPktSent ∧
      (c'.flows f).lastPktSent ≤ (c.flows f).lastPktSent ∧
      (c'.flows f).lastPktWritten = (c.flows f).lastPktWritten) : Sending cfg c' where
  acked_le := fun f => (hflows f).1
  sent_lt := fun f => (hflows f).2.1.trans_lt (h.sent_lt f)
  written_lt := fun f => (hflows f).2.2 ▸ h.written_lt f
  written := fun fid hfid => absurd hfid (hpc fid)
  stopped := fun fid hfid => absurd hfid (hpc fid)

theorem sending_populate {cfg : Config} {c c' : Client} (h : Sending cfg c)
    (hpc : c'.pc = .send 0)
    (hflows : ∀ f, c'.flows f =
      if f < cfg.flowNum then (c.flows f).populate cfg.numPing else c.flows f) :
    Sending cfg c' where
  acked_le := fun f => by
    rw [hflows]
    split_ifs
    · exact h.acked_le f
    · exact h.acked_le f
  sent_lt := fun f => by
    rw [hflows]
    split_ifs
    · exact h.sent_lt f
    · exact h.sent_lt f
  written_lt := fun f => by
    rw [hflows]
    split_ifs
    -- `last_pkt_written` grows to at most the number of packets
    · have hping := numPing_lt cfg
      simp only [CliFlow.populate]
      split_ifs <;> omega
    · exact h.written_lt f
  written := fun _ _ f hf => by
    rw [hflows, if_pos hf]
    rfl
  stopped := fun fid hfid f _ hlt => by
    rw [hpc] at hfid
    cases hfid
    exact absurd hlt (Nat.not_lt_zero f)

theorem sending_send {cfg : Config} {c c' : Client} {fid : Nat} {flow : CliFlow}
    {seqs : List Nat} {stamp : Nat → Nat} (h : Sending cfg c) (hpc : c.pc = .send fid)
    (hfid : fid < cfg.flowNum) (hsend : (c.flows fid).send stamp = some (flow, seqs))
    (hpc' : c'.pc = .send (fid + 1)) (hflows : c'.flows = Function.update c.flows fid flow) :
    Sending cfg c' := by
  obtain ⟨hacked, hwritten, -, hle, hend, hstops⟩ := send_stops hsend
  have hself : c'.flows fid = flow := by rw [hflows, Function.update_self]
  have hother : ∀ f, f ≠ fid → c'.flows f = c.flows f := fun f hf => by
    rw [hflows, Function.update_of_ne hf]
  -- what holds of the new flow and held of the old ones holds of each flow now
  have hat : ∀ {P : CliFlow → Prop} (f : Nat), P flow → P (c.flows f) → P (c'.flows f) := by
    intro P f hnew hold
    by_cases hf : f = fid
    · rw [hf, hself]
      exact hnew
    · rw [hother f hf]
      exact hold
  have hacked_le := h.acked_le fid
  have hsent_lt := h.sent_lt fid
  have hwritten_lt := h.written_lt fid
  refine ⟨fun f => ?_, fun f => ?_, fun f => ?_, fun k hk f hf => ?_, fun k hk f hf hlt => ?_⟩
  · exact hat (P := fun x => x.lastPktAcked ≤ x.lastPktSent) f (by omega) (h.acked_le f)
  · exact hat (P := fun x => x.lastPktSent < 2 ^ 32) f (by omega) (h.sent_lt f)
  · exact hat (P := fun x => x.lastPktWritten < 2 ^ 32) f (by omega) (h.written_lt f)
  · refine hat (P := fun x => x.lastPktWritten = (x.populate cfg.numPing).lastPktWritten) f ?_
      (h.written fid hpc f hf)
    rw [hwritten, h.written fid hpc fid hfid]
    simp only [CliFlow.populate, hacked]
  · rw [hpc'] at hk
    cases hk
    by_cases heq : f = fid
    · rw [heq, hself]
      exact hstops
    · rw [hother f heq]
      exact h.stopped fid hpc f hf (by omega)

/-- One step keeps it, if it acks only what was sent. -/
theorem sending_step {cfg : Config} {myEth : EtherAddr} {c c' : Client} {a : SenderAct}
    (h : Sending cfg c) (ha : AcksSent myEth c a) (hstep : senderStep cfg myEth c a = some c') :
    Sending cfg c' := by
  -- a packet moves one flow's ack; a step of the loop is one of the six places it can be at
  cases a with
  | packet pkt =>
    cases hparse : parsePacket myEth pkt with
    | zero =>
      simp only [senderStep, hparse] at hstep
      split_ifs at hstep
      cases hstep
      exact h
    | succ rfid =>
      have hack : pkt.tcp.recvAck.toNat ≤ (c.flows rfid).lastPktSent := by
        rcases ha with hzero | hle
        · omega
        · rw [hparse] at hle
          exact hle
      simp only [senderStep, hparse, Client.recvAck] at hstep
      split_ifs at hstep with hgo
      obtain ⟨flow, hf, rfl⟩ := Option.map_eq_some_iff.mp hstep
      obtain ⟨hacked, hwritten, hsent⟩ := recv_spec hf
      refine sending_elsewhere h (fun fid hfid => ?_) fun f => ?_
      · cases hgo.1.symm.trans hfid
      · have hle := h.acked_le f
        by_cases hfid : f = rfid
        · subst hfid
          simp only [Client.setFlow, Function.update_self]
          exact ⟨by omega, by omega, hwritten⟩
        · simp only [Client.setFlow, Function.update_of_ne hfid]
          exact ⟨hle, le_rfl, trivial⟩
  | step clock stamp =>
    obtain ⟨⟨c₁, frames⟩, hc, heq⟩ := Option.map_eq_some_iff.mp hstep
    cases heq
    unfold Client.step at hc
    cases hpc : c.pc with
    | head =>
      simp only [hpc] at hc
      split_ifs at hc
      · cases hc
        exact sending_elsewhere h (fun _ hfid => by cases hfid) fun f => ⟨h.acked_le f, le_rfl, rfl⟩
      · cases hc
        exact sending_elsewhere h (fun _ hfid => by cases hfid) fun f => ⟨h.acked_le f, le_rfl, rfl⟩
    | retransmit fid =>
      simp only [hpc] at hc
      split_ifs at hc with hfid
      · obtain ⟨⟨flow, seqs⟩, hr, heq⟩ := Option.map_eq_some_iff.mp hc
        cases heq
        obtain ⟨hacked, hsent, hwritten, -⟩ := retransmit_spec hr
        refine sending_elsewhere h (fun _ hk => by cases hk) fun f => ?_
        have hle := h.acked_le f
        by_cases hf : f = fid
        · subst hf
          simp only [Client.setFlow, Function.update_self]
          exact ⟨by omega, hsent.le, hwritten⟩
        · simp only [Client.setFlow, Function.update_of_ne hf]
          exact ⟨hle, le_rfl, trivial⟩
      · cases hc
        exact sending_elsewhere h (fun _ hk => by cases hk) fun f => ⟨h.acked_le f, le_rfl, rfl⟩
    | populate =>
      simp only [hpc] at hc
      cases hc
      exact sending_populate h rfl fun _ => rfl
    | send fid =>
      simp only [hpc] at hc
      split_ifs at hc with hfid
      · obtain ⟨⟨flow, seqs⟩, hs, heq⟩ := Option.map_eq_some_iff.mp hc
        cases heq
        exact sending_send h hpc hfid hs rfl rfl
      · cases hc
        exact sending_elsewhere h (fun _ hk => by cases hk) fun f => ⟨h.acked_le f, le_rfl, rfl⟩
    | recv =>
      simp only [hpc] at hc
      cases hc
      exact sending_elsewhere h (fun _ hk => by cases hk) fun f => ⟨h.acked_le f, le_rfl, rfl⟩
    | done =>
      simp only [hpc] at hc
      cases hc

/-- Right after the send step a flow that is not done has a packet to be acked, unless its
    window is closed.  (`last_pkt_acked + BUF_SIZE` wraps only for a negative flow size.) -/
def OutstandingOrClosed (cfg : Config) (c : Client) : Prop :=
  c.pc = .send cfg.flowNum → ∀ f < cfg.flowNum, (c.flows f).lastPktAcked < cfg.numPing →
    (c.flows f).lastPktAcked + BUF_SIZE < 2 ^ 32 →
    (c.flows f).lastPktAcked < (c.flows f).lastPktSent ∨ (c.flows f).rcvWnd = 0

theorem outstandingOrClosed_of_sending {cfg : Config} {c : Client} (h : Sending cfg c) :
    OutstandingOrClosed cfg c := by
  intro hpc f hf hmore hwrap
  have hle := h.acked_le f
  have hsent := h.sent_lt f
  have hstop := h.stopped _ hpc f hf hf
  have hwritten := h.written _ hpc f hf
  -- something is written beyond what is acked
  have hroom : (c.flows f).lastPktAcked < (c.flows f).lastPktWritten := by
    rw [hwritten]
    simp only [CliFlow.populate, Nat.mod_eq_of_lt hwrap]
    have hsize : 0 < BUF_SIZE := by decide
    split_ifs <;> omega
  by_contra hnone
  obtain ⟨hall, hopen⟩ := not_or.mp hnone
  refine hstop ⟨?_, by omega⟩
  have hzero : ((c.flows f).lastPktSent + (2 ^ 32 - (c.flows f).lastPktAcked)) % 2 ^ 32 = 0 := by
    omega
  omega

/-- In every run in which nothing is acked that was not sent, the sender leaves its send step
    with a packet outstanding for each flow that is not done and whose window is open. -/
theorem outstanding_or_closed (cfg : Config) (myEth : EtherAddr) (as : List SenderAct)
    (hacks : (sender cfg myEth).Along (AcksSent myEth) Client.init as) :
    (sender cfg myEth).Always (OutstandingOrClosed cfg) Client.init as :=
  Lts.always_of_along (fun _ _ _ hc hg hstep => sending_step hc hg hstep)
    (fun _ hc => outstandingOrClosed_of_sending hc) (sending_init cfg) hacks

/-- A flow of 129 packets, whose peer acks the first 128 and closes the window. -/
def closedAfter128 : List SenderAct :=
  untilRecv ++ [.packet (ackPacket 128 0)] ++ untilRecv

theorem outstanding_or_closed_after128 :
    (sender (oneFlow 129 (by decide)) (Vector.replicate 6 0)).Always
      (OutstandingOrClosed (oneFlow 129 (by decide))) Client.init closedAfter128 :=
  outstanding_or_closed _ _ _ (by decide +kernel)

/-- The last packet is never sent, and nothing is outstanding. -/
theorem deadlock_after128 :
    ¬ ∀ (cfg : Config) (myEth : EtherAddr) (as : List SenderAct),
      (sender cfg myEth).Along (AcksSent myEth) Client.init as →
      (sender cfg myEth).Always
        (fun c => c.pc = .send cfg.flowNum → ∀ f < cfg.flowNum,
          (c.flows f).lastPktAcked < cfg.numPing →
          (c.flows f).lastPktAcked < (c.flows f).lastPktSent) Client.init as := by
  intro h
  have hrun : ((sender (oneFlow 129 (by decide)) (Vector.replicate 6 0)).run Client.init
      closedAfter128).any
        (fun c => c.pc = .send 1 ∧ (c.flows 0).lastPktAcked = 128 ∧
          (c.flows 0).lastPktSent = 128) = true := by
    decide +kernel
  obtain ⟨c, hc, hstuck⟩ := (Option.any_eq_true _ _).mp hrun
  obtain ⟨hpc, hacked, hsent⟩ := of_decide_eq_true hstuck
  have hout := (h _ _ _ (by decide +kernel)).last hc hpc 0 (by decide) (by rw [hacked]; decide)
  omega

end Dpdk
end DatacenterNetworking
