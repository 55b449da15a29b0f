/-
  DatacenterNetworking.Htsim.DataSource

  What the three flow sources share (`datasource.cpp`, `eventlist.cpp`), and what
  any of them may do to it.

  `Moves` is the abstract sender: it sends the next segment, sends the first
  unacknowledged one again, takes an ack, falls back after a timeout, or starts
  over.  Each source is shown to make such moves only (`Endhost` in
  `Htsim.Flow`), and what holds of a sender by its moves holds of all of them:

    * `Segmented` — everything sent is a whole segment on the grid of `MSS_BYTES`;
    * `Within`    — nothing is sent beyond the end of the flow;
    * `Ahead`     — `_last_acked <= _highest_sent`, and nothing that was acked is
      sent.  This one depends on the acks taken.
-/

import DatacenterNetworking.Htsim.DataPacket
import Mathlib.Logic.Relation

namespace DatacenterNetworking
namespace Htsim

/-- History: a data packet handed to `sendOn`, with `_last_acked` at that moment. -/
structure Sent where
  pkt : DataPacket
  lastAcked : Nat
  deriving DecidableEq, Repr

/-- The packet carries the first byte the source knows to be missing, or a later one. -/
def Sent.Fresh (e : Sent) : Prop := e.lastAcked < e.pkt.seqno

instance (e : Sent) : Decidable e.Fresh := inferInstanceAs (Decidable (_ < _))

/-- `DataSource`.  `pending` are the times at which the source is in the event list, and
    `endtime` is the event list's. -/
structure DataSource where
  flowsize : Nat
  duration : Nat
  startTime : Nat
  endtime : Nat
  highestSent : Nat
  lastAcked : Nat
  pending : List Nat
  sent : List Sent
  deriving DecidableEq, Repr

namespace DataSource

/-- `EventList::sourceIsPending`. -/
def sourceIsPending (b : DataSource) (time : Nat) : DataSource :=
  if b.endtime = 0 ∨ time ≤ b.endtime then { b with pending := b.pending ++ [time] } else b

/-- The constructor and `connect`. -/
def new (flowsize duration startTime endtime : Nat) : DataSource :=
  sourceIsPending
    { flowsize, duration, startTime, endtime
      highestSent := 0
      lastAcked := 0
      pending := []
      sent := [] }
    startTime

/-- Only the event list changes; one that was empty holds the new event at most. -/
theorem sourceIsPending_spec (b : DataSource) (time : Nat) :
    let b' := b.sourceIsPending time
    b'.flowsize = b.flowsize ∧ b'.duration = b.duration ∧ b'.highestSent = b.highestSent ∧
      b'.lastAcked = b.lastAcked ∧ b'.sent = b.sent ∧
      (b.pending = [] → b'.pending.length ≤ 1 ∧ ∀ w ∈ b'.pending, w = time) := by
  simp only [sourceIsPending]
  split_ifs
  · refine ⟨rfl, rfl, rfl, rfl, rfl, fun hempty => ?_⟩
    simp [hempty]
  · refine ⟨rfl, rfl, rfl, rfl, rfl, fun hempty => ?_⟩
    simp [hempty]

/-- A new source has sent and taken nothing. -/
theorem new_spec (flowsize duration startTime endtime : Nat) :
    let b := new flowsize duration startTime endtime
    b.flowsize = flowsize ∧ b.duration = duration ∧ b.highestSent = 0 ∧ b.lastAcked = 0 ∧
      b.sent = [] ∧ b.pending.length ≤ 1 := by
  obtain ⟨hflow, hdur, hhigh, hlow, hsent, hpend⟩ := sourceIsPending_spec
    { flowsize, duration, startTime, endtime
      highestSent := 0
      lastAcked := 0
      pending := []
      sent := [] } startTime
  exact ⟨hflow, hdur, hhigh, hlow, hsent, (hpend rfl).1⟩

/-- `newpkt` with `set_ts`, and `sendOn`. -/
def sendOn (b : DataSource) (pkt : DataPacket) : DataSource :=
  { b with sent := b.sent ++ [⟨pkt, b.lastAcked⟩] }

/-- The condition under which an ack ends the flow, in every `receivePacket`. -/
def Completes (b : DataSource) (now ackno : Nat) : Prop :=
  (0 < b.flowsize ∧ b.flowsize ≤ ackno) ∨ (0 < b.duration ∧ b.startTime + b.duration < now)

instance (b : DataSource) (now ackno : Nat) : Decidable (b.Completes now ackno) :=
  inferInstanceAs (Decidable (_ ∨ _))

/-- A whole flow has been sent: the check before sending in every source. -/
def AllSent (b : DataSource) : Prop := 0 < b.flowsize ∧ b.flowsize ≤ b.highestSent

instance (b : DataSource) : Decidable b.AllSent := inferInstanceAs (Decidable (_ ∧ _))

/-! ## The abstract sender -/

/-- What a source may do to its counters, in an event of its own (`none`) or when it takes
    an ack (`some ackno`). -/
inductive Move : Option Nat → DataSource → DataSource → Prop
  /-- The next segment. -/
  | send {ack : Option Nat} {b : DataSource} {pkt : DataPacket}
      (hseq : pkt.seqno = b.highestSent + 1) (hsize : pkt.size = MSS_BYTES)
      (hroom : ¬ b.AllSent) :
      Move ack b { b.sendOn pkt with highestSent := b.highestSent + MSS_BYTES }
  /-- The first segment that is not acked. -/
  | resend {ack : Option Nat} {b : DataSource} {pkt : DataPacket}
      (hseq : pkt.seqno = b.lastAcked + 1) (hsize : pkt.size = MSS_BYTES) :
      Move ack b (b.sendOn pkt)
  /-- The same, when nothing is in flight. -/
  | resendTop {ack : Option Nat} {b : DataSource} {pkt : DataPacket}
      (hseq : pkt.seqno = b.lastAcked + 1) (hsize : pkt.size = MSS_BYTES)
      (htop : b.lastAcked = b.highestSent) :
      Move ack b { b.sendOn pkt with highestSent := b.highestSent + MSS_BYTES }
  /-- Events are scheduled. -/
  | schedule {ack : Option Nat} {b : DataSource} (times : List Nat) :
      Move ack b { b with pending := times }
  /-- An ack that does not end the flow. -/
  | ack {b : DataSource} {ackno : Nat} (hlow : b.lastAcked ≤ ackno)
      (hflow : 0 < b.flowsize → ackno < b.flowsize) :
      Move (some ackno) b { b with lastAcked := ackno }
  /-- A timeout. -/
  | timeout {b : DataSource} : Move none b { b with highestSent := b.lastAcked + MSS_BYTES }
  /-- The flow starts over. -/
  | restart {b : DataSource} : Move none b { b with highestSent := 0, lastAcked := 0 }

/-- Any number of moves. -/
def Moves (ack : Option Nat) : DataSource → DataSource → Prop := Relation.ReflTransGen (Move ack)

section Moves

variable {ack : Option Nat} {b b' b'' : DataSource}

theorem Moves.refl (b : DataSource) : Moves ack b b := Relation.ReflTransGen.refl

theorem Move.moves (h : Move ack b b') : Moves ack b b' := Relation.ReflTransGen.single h

theorem Moves.trans (h : Moves ack b b') (h' : Moves ack b' b'') : Moves ack b b'' :=
  Relation.ReflTransGen.trans h h'

/-- What every move keeps is kept by all of them. -/
theorem Moves.keep {P : DataSource → Prop} (hmove : ∀ c c', Move ack c c' → P c → P c')
    (h : Moves ack b b') (hb : P b) : P b' := by
  induction h with
  | refl => exact hb
  | tail _ hlast ih => exact hmove _ _ hlast ih

theorem moves_sourceIsPending (b : DataSource) (time : Nat) :
    Moves ack b (b.sourceIsPending time) := by
  simp only [sourceIsPending]
  split_ifs
  · exact (Move.schedule _).moves
  · exact Moves.refl b

/-- The size and times of a flow are fixed, and its history only grows. -/
structure Grown (b b' : DataSource) : Prop where
  flowsize : b'.flowsize = b.flowsize
  duration : b'.duration = b.duration
  startTime : b'.startTime = b.startTime
  sent : b.sent <+: b'.sent

theorem grown_move (h : Move ack b b') : Grown b b' := by
  cases h with
  | send => exact ⟨rfl, rfl, rfl, List.prefix_append _ _⟩
  | resend => exact ⟨rfl, rfl, rfl, List.prefix_append _ _⟩
  | resendTop => exact ⟨rfl, rfl, rfl, List.prefix_append _ _⟩
  | schedule => exact ⟨rfl, rfl, rfl, List.prefix_rfl⟩
  | ack => exact ⟨rfl, rfl, rfl, List.prefix_rfl⟩
  | timeout => exact ⟨rfl, rfl, rfl, List.prefix_rfl⟩
  | restart => exact ⟨rfl, rfl, rfl, List.prefix_rfl⟩

theorem Moves.grown (h : Moves ack b b') : Grown b b' := by
  refine h.keep (P := Grown b) (fun c c' hmove hc => ?_) ⟨rfl, rfl, rfl, List.prefix_rfl⟩
  have hc' := grown_move hmove
  exact
    { flowsize := hc'.flowsize.trans hc.flowsize
      duration := hc'.duration.trans hc.duration
      startTime := hc'.startTime.trans hc.startTime
      sent := hc.sent.trans hc'.sent }

/-- The end time is the event list's. -/
theorem Moves.endtime (h : Moves ack b b') : b'.endtime = b.endtime := by
  refine h.keep (P := fun c => c.endtime = b.endtime) (fun c c' hmove hc => ?_) rfl
  cases hmove with
  | send => exact hc
  | resend => exact hc
  | resendTop => exact hc
  | schedule => exact hc
  | ack => exact hc
  | timeout => exact hc
  | restart => exact hc

theorem mem_sendOn {e : Sent} {pkt : DataPacket} (h : e ∈ (b.sendOn pkt).sent) :
    e ∈ b.sent ∨ e = ⟨pkt, b.lastAcked⟩ := by
  rcases List.mem_append.mp h with h | h
  · exact Or.inl h
  · exact Or.inr (List.mem_singleton.mp h)

/-! ## Whole segments -/

/-- The counters and everything sent are on the grid of the segment size. -/
structure Segmented (b : DataSource) : Prop where
  highestSent : MSS_BYTES ∣ b.highestSent
  lastAcked : MSS_BYTES ∣ b.lastAcked
  sent : ∀ e ∈ b.sent, ∃ k, e.pkt.seqno = k * MSS_BYTES + 1 ∧ e.pkt.size = MSS_BYTES

theorem segmented_new (flowsize duration startTime endtime : Nat) :
    (new flowsize duration startTime endtime).Segmented := by
  obtain ⟨-, -, hhigh, hlow, hsent, -⟩ := new_spec flowsize duration startTime endtime
  constructor
  · rw [hhigh]
    exact Nat.dvd_zero _
  · rw [hlow]
    exact Nat.dvd_zero _
  · rw [hsent]
    exact fun _ he => absurd he List.not_mem_nil

/-- A segment behind a counter on the grid is on it. -/
theorem segmented_sendOn {pkt : DataPacket} {n : Nat} (h : Segmented b) (hn : MSS_BYTES ∣ n)
    (hseq : pkt.seqno = n + 1) (hsize : pkt.size = MSS_BYTES) : Segmented (b.sendOn pkt) where
  highestSent := h.highestSent
  lastAcked := h.lastAcked
  sent := fun e he => by
    rcases mem_sendOn he with he | rfl
    · exact h.sent e he
    · obtain ⟨k, rfl⟩ := hn
      exact ⟨k, by rw [hseq, Nat.mul_comm], hsize⟩

/-- Moves keep to the grid if the ack taken is on it. -/
theorem segmented_move (hack : ∀ a ∈ ack, MSS_BYTES ∣ a) (h : Move ack b b')
    (hb : Segmented b) : Segmented b' := by
  cases h with
  | send hseq hsize =>
    have hsent := segmented_sendOn hb hb.highestSent hseq hsize
    exact { hsent with highestSent := Nat.dvd_add hb.highestSent (dvd_refl _) }
  | resend hseq hsize => exact segmented_sendOn hb hb.lastAcked hseq hsize
  | resendTop hseq hsize =>
    have hsent := segmented_sendOn hb hb.lastAcked hseq hsize
    exact { hsent with highestSent := Nat.dvd_add hb.highestSent (dvd_refl _) }
  | schedule => exact ⟨hb.highestSent, hb.lastAcked, hb.sent⟩
  | ack => exact ⟨hb.highestSent, hack _ rfl, hb.sent⟩
  | timeout => exact ⟨Nat.dvd_add hb.lastAcked (dvd_refl _), hb.lastAcked, hb.sent⟩
  | restart => exact ⟨Nat.dvd_zero _, Nat.dvd_zero _, hb.sent⟩

theorem Moves.segmented (h : Moves ack b b') (hack : ∀ a ∈ ack, MSS_BYTES ∣ a)
    (hb : Segmented b) : Segmented b' :=
  h.keep (fun _ _ hmove => segmented_move hack hmove) hb

/-! ## The end of the flow -/

/-- Of a flow with a size, the acks taken and the segments sent start within it. -/
structure Within (b : DataSource) : Prop where
  lastAcked : b.lastAcked < b.flowsize
  sent : ∀ e ∈ b.sent, e.pkt.seqno ≤ b.flowsize

theorem within_new {flowsize : Nat} (hsize : 0 < flowsize) (duration startTime endtime : Nat) :
    (new flowsize duration startTime endtime).Within := by
  obtain ⟨hflow, -, -, hlow, hsent, -⟩ := new_spec flowsize duration startTime endtime
  constructor
  · rw [hflow, hlow]
    exact hsize
  · rw [hsent]
    exact fun _ he => absurd he List.not_mem_nil

theorem within_sendOn {pkt : DataPacket} (h : Within b) (hseq : pkt.seqno ≤ b.flowsize) :
    Within (b.sendOn pkt) where
  lastAcked := h.lastAcked
  sent := fun e he => by
    rcases mem_sendOn he with he | rfl
    · exact h.sent e he
    · exact hseq

theorem within_move (h : Move ack b b') (hb : Within b) : Within b' := by
  have hlt := hb.lastAcked
  cases h with
  | send hseq _ hroom =>
    have hsent := within_sendOn hb (hseq.trans_le (by unfold AllSent at hroom; omega))
    exact ⟨hsent.lastAcked, hsent.sent⟩
  | resend hseq => exact within_sendOn hb (hseq.trans_le hlt)
  | resendTop hseq =>
    have hsent := within_sendOn hb (hseq.trans_le hlt)
    exact ⟨hsent.lastAcked, hsent.sent⟩
  | schedule => exact ⟨hlt, hb.sent⟩
  | ack _ hflow => exact ⟨hflow (by omega), hb.sent⟩
  | timeout => exact ⟨hlt, hb.sent⟩
  | restart => exact ⟨by show 0 < b.flowsize; omega, hb.sent⟩

theorem Moves.within (h : Moves ack b b') (hb : Within b) : Within b' :=
  h.keep (fun _ _ => within_move) hb

/-! ## Ahead of the acks -/

/-- The source has sent what is acked, and sends nothing that is. -/
structure Ahead (b : DataSource) : Prop where
  le : b.lastAcked ≤ b.highestSent
  fresh : ∀ e ∈ b.sent, e.Fresh

theorem ahead_new (flowsize duration startTime endtime : Nat) :
    (new flowsize duration startTime endtime).Ahead := by
  obtain ⟨-, -, hhigh, hlow, hsent, -⟩ := new_spec flowsize duration startTime endtime
  constructor
  · rw [hhigh, hlow]
  · rw [hsent]
    exact fun _ he => absurd he List.not_mem_nil

theorem fresh_sendOn {pkt : DataPacket} (h : ∀ e ∈ b.sent, e.Fresh)
    (hseq : b.lastAcked < pkt.seqno) : ∀ e ∈ (b.sendOn pkt).sent, e.Fresh := by
  intro e he
  rcases mem_sendOn he with he | rfl
  · exact h e he
  · exact hseq

/-- What is acked stays sent if the ack taken is for something sent. -/
theorem le_move (h : Move ack b b')
    (hb : b.lastAcked ≤ b.highestSent ∧ ∀ a ∈ ack, a ≤ b.highestSent) :
    b'.lastAcked ≤ b'.highestSent ∧ ∀ a ∈ ack, a ≤ b'.highestSent := by
  obtain ⟨hle, hack⟩ := hb
  have hup : b.highestSent ≤ b.highestSent + MSS_BYTES := Nat.le_add_right _ _
  cases h with
  | send => exact ⟨hle.trans hup, fun a ha => (hack a ha).trans hup⟩
  | resend => exact ⟨hle, hack⟩
  | resendTop => exact ⟨hle.trans hup, fun a ha => (hack a ha).trans hup⟩
  | schedule => exact ⟨hle, hack⟩
  | ack => exact ⟨hack _ rfl, hack⟩
  | timeout => exact ⟨Nat.le_add_right _ _, fun _ ha => by cases ha⟩
  | restart => exact ⟨le_rfl, fun _ ha => by cases ha⟩

theorem Moves.le (h : Moves ack b b') (hack : ∀ a ∈ ack, a ≤ b.highestSent)
    (hb : b.lastAcked ≤ b.highestSent) : b'.lastAcked ≤ b'.highestSent :=
  (h.keep (fun _ _ => le_move) ⟨hb, hack⟩).1

/-- A source stays ahead if the ack it takes does not overtake it. -/
theorem ahead_move (h : Move ack b b') (hb : Ahead b ∧ ∀ a ∈ ack, a ≤ b.highestSent) :
    Ahead b' ∧ ∀ a ∈ ack, a ≤ b'.highestSent := by
  obtain ⟨⟨hle, hfresh⟩, hack⟩ := hb
  have hle' := le_move h ⟨hle, hack⟩
  refine ⟨⟨hle'.1, ?_⟩, hle'.2⟩
  cases h with
  | send hseq => exact fresh_sendOn hfresh (by omega)
  | resend hseq => exact fresh_sendOn hfresh (by omega)
  | resendTop hseq => exact fresh_sendOn hfresh (by omega)
  | schedule => exact hfresh
  | ack => exact hfresh
  | timeout => exact hfresh
  | restart => exact hfresh

theorem Moves.ahead (h : Moves ack b b') (hack : ∀ a ∈ ack, a ≤ b.highestSent)
    (hb : Ahead b) : Ahead b' :=
  (h.keep (fun _ _ => ahead_move) ⟨hb, hack⟩).1

end Moves

end DataSource
end Htsim
end DatacenterNetworking
