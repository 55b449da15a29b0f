/-
  DatacenterNetworking.Htsim.PairPending

  When a `PacketPairSrc` is in the event list.  The startup has an event at `_first_rto`
  that sends the first pair again; the first estimate starts a second chain of events,
  which sends at the estimated rate.  After the startup the first event is superfluous,
  and `doNextEvent` returns at `_first_rto` without scheduling another.

  `scheduled_iff_backed`: there is always an event pending exactly if at that time there
  is one besides.  A flow of two segments or less finishes before it has the second
  chain: nothing is pending after `_first_rto`, and it is never cleaned up.
-/

import DatacenterNetworking.Htsim.PacketPair

namespace DatacenterNetworking
namespace Htsim

theorem prefix_of_eq {α : Type*} {l l' : List α} (h : l' = l) : l <+: l' := by
  cases h
  exact List.prefix_rfl

/-! ## What is pending -/

/-- Without an end time every event is accepted. -/
theorem DataSource.pending_sourceIsPending {b : DataSource} (h : b.endtime = 0) (time : Nat) :
    (b.sourceIsPending time).pending = b.pending ++ [time] := by
  simp only [sourceIsPending, if_pos (Or.inl h)]

namespace PacedSource

variable {now : Nat}

theorem retransmitPacket_pending (s : PacedSource) :
    (retransmitPacket now s).pending = s.pending := by
  rw [retransmitPacket_source]
  split_ifs <;> rfl

theorem processAck_pending (ackno : Nat) (s : PacedSource) :
    (processAck now ackno s).pending = s.pending := by
  simp only [processAck, newAck, dupAck]
  split_ifs
  · rfl
  · exact retransmitPacket_pending _
  · rfl
  · rfl
  · rfl
  · exact retransmitPacket_pending _

end PacedSource

namespace PacketPairSrc

variable {D : Type} {float : PairFloat D} {now : Nat}

theorem transmitPacketPair_pending (now : Nat) (s : PacedSource) :
    (transmitPacketPair now s).pending = s.pending := by
  simp only [transmitPacketPair]
  split_ifs
  · rfl
  · rfl
  · rw [PacedSource.armRto_source]
    rfl
  · show ((s.sendNext now true).armRto now).pending = s.pending
    rw [PacedSource.armRto_source]
    rfl

theorem sendPackets_pending {s : PacketPairSrc D} (h : s.endtime = 0) :
    (sendPackets float now s).pending = s.pending ++ [now + float.pairTime s.rateEstimate] := by
  have hend : (transmitPacketPair now s.toPacedSource).endtime = 0 :=
    (transmitPacketPair_moves (DataSource.Moves.refl _ : DataSource.Moves none _ _)).endtime.trans h
  rw [← transmitPacketPair_pending now s.toPacedSource]
  exact DataSource.pending_sourceIsPending hend _

/-- The event that schedules nothing. -/
def Superfluous (now : Nat) (s : PacketPairSrc D) : Prop :=
  now = s.firstRto ∧ s.state ≠ .idle ∧ s.state ≠ .startup

theorem goOn_pending (float : PairFloat D) (now : Nat) {s : PacketPairSrc D} (h : s.endtime = 0) :
    (now = s.firstRto ∧ (goOn float now s).pending = s.pending) ∨
      (now ≠ s.firstRto ∧ (goOn float now s).pending ≠ []) := by
  simp only [goOn]
  split_ifs with hfirst
  · exact Or.inl ⟨hfirst, rfl⟩
  · right
    rw [sendPackets_pending h]
    exact ⟨hfirst, List.concat_ne_nil _ _⟩
  · right
    refine ⟨hfirst, ?_⟩
    rw [DataSource.pending_sourceIsPending h]
    exact List.concat_ne_nil _ _

/-- Every other event schedules the next one. -/
theorem doNextEvent_pending {nPackets : Nat} {s t : PacketPairSrc D} (hend : s.endtime = 0)
    (h : doNextEvent float now nPackets s = some t) :
    (Superfluous now s ∧ t.pending = s.pending) ∨ (¬ Superfluous now s ∧ t.pending ≠ []) := by
  -- what all branches but the first end with
  have hgo : ∀ {u : PacketPairSrc D},
      ¬ (s.state = .idle ∨ (s.state = .startup ∧ now = s.firstRto)) →
      u.endtime = 0 → u.firstRto = s.firstRto → u.pending = s.pending → goOn float now u = t →
      (Superfluous now s ∧ t.pending = s.pending) ∨ (¬ Superfluous now s ∧ t.pending ≠ []) := by
    intro u hlate huend hfirst hpend hu
    rw [← hu]
    rcases goOn_pending float now huend with ⟨heq, hsame⟩ | ⟨hne, hnext⟩
    · rw [hfirst] at heq
      left
      exact ⟨⟨heq, fun h => hlate (Or.inl h), fun h => hlate (Or.inr ⟨h, heq⟩)⟩,
        hsame.trans hpend⟩
    · rw [hfirst] at hne
      exact Or.inr ⟨fun h => hne h.1, hnext⟩
  unfold doNextEvent at h
  split_ifs at h with hstart
  · -- the first pair
    cases h
    right
    refine ⟨fun h => ?_, ?_⟩
    · rcases hstart with hidle | ⟨hstartup, -⟩
      · exact h.2.1 hidle
      · exact h.2.2 hstartup
    · have hmoves : DataSource.Moves none s.toDataSource (transmitPacketPair now
          { s.toPacedSource with
            highestSent := 0, lastAcked := 0, bdpEstimate := 2 * MSS_BYTES }).toDataSource :=
        transmitPacketPair_moves DataSource.Move.restart.moves
      show (DataSource.sourceIsPending _ _).pending ≠ []
      rw [DataSource.pending_sourceIsPending (hmoves.endtime.trans hend)]
      exact List.concat_ne_nil _ _
  · exact hgo hstart hend rfl rfl (Option.some.inj h)
  · exact hgo (u := { s with toPacedSource := s.toPacedSource.timeout now }) hstart
      ((PacedSource.timeout_moves s.toPacedSource).endtime.trans hend) rfl
      (PacedSource.retransmitPacket_pending _) (Option.some.inj h)
  · exact hgo hstart hend rfl rfl (Option.some.inj h)

/-- The first gap begins the second chain. -/
theorem takeGap_pending {pktpairdiff : Nat} {s : PacketPairSrc D} (hend : s.endtime = 0) :
    s.pending <+: (takeGap float now pktpairdiff s).pending := by
  have hsame : (updateRate float pktpairdiff s).toDataSource = s.toDataSource :=
    updateRate_source _ _
  simp only [takeGap]
  split_ifs
  · simp only [firstEstimate]
    rw [sendPackets_pending (by rw [hsame]; exact hend), hsame]
    exact List.prefix_append _ _
  · exact prefix_of_eq (congrArg DataSource.pending hsame)
  · exact List.prefix_rfl

/-- No ack takes an event out of the list. -/
theorem receivePacket_pending {a : DataAck} {s : PacketPairSrc D} (hend : s.endtime = 0) :
    s.pending <+: (receivePacket float now a s).pending := by
  by_cases hstop : s.state = .finish ∨ s.Completes now a.ackno
  · exact prefix_of_eq (congrArg DataSource.pending (receivePacket_stop hstop))
  obtain ⟨hstate, hgo⟩ := not_or.mp hstop
  rcases Nat.lt_or_ge a.ackno s.lastAcked with hold | hnew
  · have hsame : receivePacket float now a s = s := receivePacket_old hstate hgo hold
    exact prefix_of_eq (congrArg (fun t => t.pending) hsame)
  · have hsame : (updateEstimates float now a s).toDataSource = s.toDataSource :=
      updateEstimates_source _ _
    rw [receivePacket_eq hstate hgo hnew, PacedSource.processAck_pending, ← hsame]
    exact takeGap_pending (by rw [hsame]; exact hend)

end PacketPairSrc

/-! ## Runs -/

namespace Flow

variable {S K : Type} {E : Endhost S K}

/-- The end time stays. -/
theorem endtime_step {s t : Flow S K} {a : Act} (hstep : step E s a = some t) :
    (E.source t.src).endtime = (E.source s.src).endtime := by
  rcases (stepped hstep).moves with hmoves | ⟨_, _, _, _, _, hmoves⟩
  · exact hmoves.endtime
  · exact hmoves.endtime

end Flow

namespace PacketPairSrc

variable {D : Type} (float : PairFloat D)

/-- The flow of a `PacketPairSrc`. -/
abbrev PairFlow (D : Type) := Flow (PacketPairSrc D) PacketPairSink

/-- A source that has not deleted itself is in the event list. -/
def Scheduled (s : PairFlow D) : Prop := s.alive = true → s.src.pending ≠ []

instance (s : PairFlow D) : Decidable (Scheduled s) := inferInstanceAs (Decidable (_ → _))

/-- An event that schedules nothing is not the last one in the list. -/
def Backed (s : PairFlow D) : Flow.Act → Prop
  | .event => ∀ time, s.src.pending.min? = some time → Superfluous time s.src →
      s.src.pending.erase time ≠ []
  | _ => True

variable {float} {s t : PairFlow D} {a : Flow.Act}

/-- A source that deletes itself does so later than at `_first_rto`. -/
theorem not_superfluous_of_deleted {now nPackets : Nat} {s : PacketPairSrc D}
    (h : doNextEvent float now nPackets s = none) : ¬ Superfluous now s := by
  unfold doNextEvent at h
  split_ifs at h with _ _ hdrained
  intro hsup
  have hfirst := hsup.1
  omega

/-- The event itself. -/
theorem scheduled_event (hend : s.src.endtime = 0)
    (hstep : Flow.step (packetPairEndhost float) s .event = some t) :
    Scheduled t ↔ Backed s .event := by
  obtain ⟨time, hmin, -, ⟨src, hnext, rfl⟩ | ⟨hnext, rfl⟩⟩ := Flow.event_cases hstep
  · have hbacked : Backed s .event ↔
        (Superfluous time s.src → s.src.pending.erase time ≠ []) := by
      refine ⟨fun h => h time hmin, fun h time' hmin' => ?_⟩
      have hmin'' : s.src.pending.min? = some time := hmin
      cases hmin''.symm.trans hmin'
      exact h
    have halive : Scheduled ((s.popEvent (packetPairEndhost float) time).handOn
        (packetPairEndhost float) src) ↔ (s.alive = true → src.pending ≠ []) := Iff.rfl
    have hs : s.alive = true := Flow.alive_of_step hstep
    rw [hbacked, halive, forall_prop_of_true hs]
    -- the event has been taken out of the list
    have hnext' : doNextEvent float time (s.data.length + s.acks.length)
        (s.popEvent (packetPairEndhost float) time).src = some src := hnext
    have hpop : Superfluous time s.src ∧ src.pending = s.src.pending.erase time ∨
        ¬ Superfluous time s.src ∧ src.pending ≠ [] :=
      doNextEvent_pending (s := (s.popEvent (packetPairEndhost float) time).src) hend hnext'
    rcases hpop with ⟨hsup, hsame⟩ | ⟨hsup, hne⟩
    · rw [hsame, forall_prop_of_true hsup]
    · exact iff_of_true hne fun h => absurd h hsup
  · refine iff_of_true (fun h => absurd h Bool.false_ne_true) fun time' hmin' hsup => ?_
    have hmin'' : s.src.pending.min? = some time := hmin
    cases hmin''.symm.trans hmin'
    have hnot : ¬ Superfluous time (s.popEvent (packetPairEndhost float) time).src :=
      not_superfluous_of_deleted hnext
    exact absurd hsup hnot

/-- All other steps keep the source in the list. -/
theorem scheduled_step (hend : s.src.endtime = 0) (h : Scheduled s)
    (hstep : Flow.step (packetPairEndhost float) s a = some t) : Scheduled t ↔ Backed s a := by
  by_cases hevent : a = .event
  · rw [hevent] at hstep ⊢
    exact scheduled_event hend hstep
  have hbacked : Backed s a := by
    cases a with
    | event => exact absurd rfl hevent
    | _ => trivial
  have hs : s.alive = true := Flow.alive_of_step hstep
  refine iff_of_true (fun _ => ?_) hbacked
  cases Flow.stepped hstep with
  | event => exact absurd rfl hevent
  | deleted => exact absurd rfl hevent
  | @ack i p acks _ _ =>
    have hpre : s.src.pending <+: (receivePacket float s.now p s.src).pending :=
      receivePacket_pending hend
    intro hnil
    have hnil' : (receivePacket float s.now p s.src).pending = [] := hnil
    rw [hnil', List.prefix_nil] at hpre
    exact h hs hpre
  | data => exact h hs
  | network => exact h hs

/-- For every flow and every run of it without an end time. -/
theorem scheduled_iff_backed (float : PairFloat D) (flowsize duration startTime : Nat)
    (as : List Flow.Act) :
    (Flow.system (packetPairEndhost float)).Always Scheduled
        (Flow.init (packetPairEndhost float) flowsize duration startTime 0) as ↔
      (Flow.system (packetPairEndhost float)).Along Backed
        (Flow.init (packetPairEndhost float) flowsize duration startTime 0) as := by
  refine Lts.always_iff_along (J := fun s => s.src.endtime = 0)
    (fun s a t hend hstep => (Flow.endtime_step hstep).trans hend)
    (fun s a t hend hP hstep => scheduled_step hend hP hstep) as rfl (fun _ => ?_)
  exact List.cons_ne_nil startTime []

/-- A flow of one segment, whose ack arrives.  At `_first_rto` the source is neither deleted
    nor called again. -/
theorem shortFlow_breaks :
    ¬ (Flow.system (packetPairEndhost exactPair)).Always Scheduled
      (Flow.init (packetPairEndhost exactPair) 1500 0 0 0)
      [.event, .deliverData 0, .deliverAck 0, .event] := by
  decide +kernel

end PacketPairSrc
end Htsim
end DatacenterNetworking
