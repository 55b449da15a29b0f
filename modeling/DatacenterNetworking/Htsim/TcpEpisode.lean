/-
  DatacenterNetworking.Htsim.TcpEpisode

  Loss episodes of a `TcpSrc`.  RFC 3782, which `tcp.cpp` cites, has a source keep out
  of fast recovery until everything it had sent before its last timeout is acked.
  `TcpSrc` compares with `_recover_seq`, which a timeout copies from `_highest_sent` and
  then sets `_highest_sent` back: a second timeout copies the lower value.

    * `Episode`        — a flow with the highest byte sent before the last timeout;
    * `single_of_keeps` — while no timeout finds bytes sent beyond
      `_highest_sent` that are not acked, the rule is kept;
    * `twoTimeouts_breaks` — a run of two timeouts in which it is not.
-/

import DatacenterNetworking.Htsim.TcpStep

namespace DatacenterNetworking
namespace Htsim

/-- The highest byte ever transmitted. -/
def DataSource.highestByte (b : DataSource) : Nat :=
  (b.sent.map fun e => e.pkt.seqno + e.pkt.size - 1).foldr max 0

/-- A flow.  `mark` is the highest byte it had transmitted before its last retransmission
    timeout. -/
structure Episode (D : Type) where
  flow : Flow (TcpSrc D) TcpSink
  mark : Nat

namespace TcpSrc

variable {D : Type} {cfg : TcpConfig D} {now : Nat}

/-! ## The recovery point -/

/-- From `s` to `t` acks do not go back; the recovery point moves, and fast recovery starts,
    only if everything up to the old one is acked. -/
structure Recovers (s t : TcpSrc D) : Prop where
  lastAcked : s.lastAcked ≤ t.lastAcked
  recoverSeq : t.recoverSeq = s.recoverSeq ∨ s.recoverSeq ≤ s.lastAcked
  enters : t.state = .fastRecov → s.state = .fastRecov ∨ s.recoverSeq ≤ s.lastAcked

theorem Recovers.send {s t : TcpSrc D} (h : Recovers s t) : Recovers s (sendPackets now t) where
  lastAcked := by
    rw [(sends_sendPackets t).lastAcked]
    exact h.lastAcked
  recoverSeq := by
    rw [(sends_sendPackets t).recoverSeq]
    exact h.recoverSeq
  enters := fun hstate => h.enters ((sendPackets_state t).symm.trans hstate)

theorem Recovers.schedule {s t : TcpSrc D} (h : Recovers s t) :
    Recovers s (scheduleCheck now t) := by
  obtain ⟨times, heq⟩ := scheduleCheck_eq now t
  rw [heq]
  exact ⟨h.lastAcked, h.recoverSeq, h.enters⟩

theorem Recovers.retransmit {s t : TcpSrc D} (h : Recovers s t) :
    Recovers s (retransmitPacket now t) where
  lastAcked := by
    rw [retransmitPacket_source]
    exact h.lastAcked
  recoverSeq := by
    have hsame : (retransmitPacket now t).recoverSeq = t.recoverSeq :=
      (armRto_spec _).2.2.2.1
    rw [hsame]
    exact h.recoverSeq
  enters := fun hstate => h.enters ((retransmitPacket_state t).symm.trans hstate)

theorem Processed.recovers {a : DataAck} {s t : TcpSrc D} (h : Processed now a s t) :
    Recovers s t := by
  cases h with
  | expected hnew =>
    apply Recovers.send
    constructor
    · rw [inflateWindow_source]
      exact hnew.le
    · left
      simp only [inflateWindow]
      split_ifs <;> rfl
    · intro hfast
      rw [inflateWindow_state] at hfast
      exact Or.inl hfast
  | recovered hnew =>
    apply Recovers.send
    refine ⟨hnew.le, Or.inl rfl, fun hfast => ?_⟩
    -- it has left fast recovery
    cases hfast
  | partly hnew hstate =>
    have hseq : (deflateWindow a.ackno (restartTimer now a.ackno s)).recoverSeq =
        s.recoverSeq := by
      simp only [deflateWindow, restartTimer]
    apply Recovers.send
    apply Recovers.retransmit
    exact ⟨hnew.le, Or.inl hseq, fun _ => Or.inl hstate⟩
  | inflate =>
    apply Recovers.send
    exact ⟨le_rfl, Or.inl rfl, Or.inl⟩
  | duplicate =>
    apply Recovers.send
    exact ⟨le_rfl, Or.inl rfl, Or.inl⟩
  | unrecovered => exact ⟨le_rfl, Or.inl rfl, Or.inl⟩
  | enter _ _ _ hfull =>
    -- the third duplicate ack, with everything up to the recovery point acked
    apply Recovers.retransmit
    exact ⟨le_rfl, Or.inr hfull, fun _ => Or.inr hfull⟩

/-- The estimates have no part in it. -/
theorem updateDctcp_recovers (ecnRev : Bool) (s : TcpSrc D) :
    (updateDctcp cfg ecnRev s).recoverSeq = s.recoverSeq ∧
      ((updateDctcp cfg ecnRev s).state = .fastRecov → s.state = .fastRecov) := by
  have hmark : (countMark ecnRev s).recoverSeq = s.recoverSeq ∧
      ((countMark ecnRev s).state = .fastRecov → s.state = .fastRecov) := by
    simp only [countMark]
    split_ifs
    · exact ⟨rfl, fun hfast => by cases hfast⟩
    · exact ⟨rfl, id⟩
    · exact ⟨rfl, id⟩
  have halpha : ∀ t : TcpSrc D, (updateAlpha cfg t).recoverSeq = t.recoverSeq := by
    intro t
    simp only [updateAlpha]
    split_ifs <;> rfl
  simp only [updateDctcp]
  split_ifs
  · rw [halpha, updateAlpha_state]
    exact hmark
  · exact hmark
  · exact ⟨rfl, id⟩

theorem Received.recovers {a : DataAck} {s t : TcpSrc D} (h : Received cfg now a s t) :
    Recovers s t := by
  cases h with
  | ignored => exact ⟨le_rfl, Or.inl rfl, Or.inl⟩
  | finishes => exact ⟨le_rfl, Or.inl rfl, fun hfast => by cases hfast⟩
  | taken _ _ _ ht =>
    obtain ⟨rtt, mdev, rto, hrtt, -⟩ := @updateRtt_eq _ now a.ts s
    rw [hrtt] at ht
    obtain ⟨hseq, hstate⟩ := @updateDctcp_recovers _ cfg a.ecnRev
      { s with rtt := rtt, mdev := mdev, rto := rto }
    have hrec := ht.recovers
    exact
      { lastAcked := by
          have hlast := hrec.lastAcked
          rwa [updateDctcp_source] at hlast
        recoverSeq := by
          have hmove := hrec.recoverSeq
          rwa [hseq, updateDctcp_source] at hmove
        enters := fun hfast => by
          have henter := hrec.enters hfast
          rw [hseq, updateDctcp_source] at henter
          exact henter.imp_left hstate }

end TcpSrc

namespace Episode

variable {D : Type} (cfg : TcpConfig D)

/-- A flow that is created. -/
def init (flowsize duration startTime endtime : Nat) : Episode D where
  flow := Flow.init (tcpEndhost cfg) flowsize duration startTime endtime
  mark := 0

/-- The transition function: that of the flow, and the mark at a timeout. -/
def step (s : Episode D) (a : Flow.Act) : Option (Episode D) :=
  ((Flow.system (tcpEndhost cfg)).step s.flow a).map fun t =>
    { flow := t
      mark := if s.flow.TimesOut a then s.flow.src.highestByte else s.mark }

/-- A flow and its episodes. -/
def system : Lts (Episode D) Flow.Act where
  step := step cfg

/-- The step does not enter fast recovery before what was sent ahead of the last timeout
    is acked. -/
def Single (s : Episode D) (a : Flow.Act) : Prop :=
  ∀ t ∈ step cfg s a, s.flow.src.state ≠ .fastRecov → t.flow.src.state = .fastRecov →
    t.mark ≤ t.flow.src.lastAcked

instance (s : Episode D) (a : Flow.Act) : Decidable (Single cfg s a) :=
  inferInstanceAs (Decidable (∀ t ∈ step cfg s a, _))

/-- A timeout finds no byte sent beyond `_highest_sent`, unless it is acked. -/
def Keeps (s : Episode D) (a : Flow.Act) : Prop :=
  s.flow.TimesOut a → s.flow.src.highestByte ≤ s.flow.src.highestSent ∨
    s.flow.src.highestByte ≤ s.flow.src.lastAcked

instance (s : Episode D) (a : Flow.Act) : Decidable (Keeps s a) :=
  inferInstanceAs (Decidable (_ → _))

/-! ## The rule along a run -/

/-- Everything sent before the last timeout is acked, or below the recovery point. -/
def Marked (s : Episode D) : Prop :=
  s.mark ≤ s.flow.src.lastAcked ∨ s.mark ≤ s.flow.src.recoverSeq

variable {cfg}

theorem step_eq_some {s t : Episode D} {a : Flow.Act} (h : step cfg s a = some t) :
    (Flow.system (tcpEndhost cfg)).step s.flow a = some t.flow ∧
      t.mark = if s.flow.TimesOut a then s.flow.src.highestByte else s.mark := by
  obtain ⟨flow, hflow, rfl⟩ := Option.map_eq_some_iff.mp h
  exact ⟨hflow, rfl⟩

/-- Other than at a timeout the source recovers. -/
theorem recovers_of_not_timesOut {s : Flow (TcpSrc D) TcpSink} {a : Flow.Act} {src : TcpSrc D}
    (h : Flow.SrcStepped cfg s a src) (htime : ¬ s.TimesOut a) : TcpSrc.Recovers s.src src := by
  cases h with
  | event hmin hnext =>
    cases hnext with
    | start =>
      have hout : Tcp.FlowStatus.slowStart ≠ .fastRecov := nofun
      apply TcpSrc.Recovers.schedule
      apply TcpSrc.Recovers.send
      exact ⟨le_rfl, Or.inl rfl, fun hfast => absurd hfast hout⟩
    | expire hidle hfin htimer => exact absurd ⟨_, hmin, hidle, hfin, htimer⟩ htime
    | check =>
      apply TcpSrc.Recovers.schedule
      exact ⟨le_rfl, Or.inl rfl, Or.inl⟩
  | deleted => exact ⟨le_rfl, Or.inl rfl, Or.inl⟩
  | ack _ hrcvd => exact hrcvd.recovers
  | same => exact ⟨le_rfl, Or.inl rfl, Or.inl⟩

/-- A timeout takes the recovery point from `_highest_sent`. -/
theorem recoverSeq_of_timesOut {s : Flow (TcpSrc D) TcpSink} {a : Flow.Act} {src : TcpSrc D}
    (h : Flow.SrcStepped cfg s a src) (htime : s.TimesOut a) :
    src.lastAcked = s.src.lastAcked ∧ src.recoverSeq = s.src.highestSent ∧
      src.state = .slowStart := by
  cases h with
  | @event time _ hmin hnext =>
    obtain ⟨time', hmin', hidle, hfin, hset, hdue⟩ := htime
    -- the event is the earliest one
    have htime' : time' = time := Option.some.inj (hmin'.symm.trans hmin)
    subst htime'
    cases hnext with
    | start hstate => exact absurd hstate hidle
    | expire =>
      obtain ⟨times, heq⟩ := TcpSrc.scheduleCheck_eq time'
        (TcpSrc.timeout time' (s.popEvent (tcpEndhost cfg) time').src)
      rw [heq]
      refine ⟨?_, (TcpSrc.armRto_spec _).2.2.2.1, TcpSrc.armRto_state _⟩
      show (TcpSrc.timeout time' (s.popEvent (tcpEndhost cfg) time').src).lastAcked = _
      rw [TcpSrc.timeout, TcpSrc.retransmitPacket_source]
      rfl
    | check _ hwait => exact absurd ⟨hset, hdue⟩ (hwait.resolve_left hfin)
  | deleted hdone =>
    obtain ⟨_, _, _, hfin, _⟩ := htime
    exact absurd hdone hfin
  | ack => exact absurd htime id
  | same hevent =>
    cases a with
    | event => exact absurd rfl hevent
    | _ => exact absurd htime id

theorem marked_step (s : Episode D) (a : Flow.Act) (t : Episode D) (h : Marked s)
    (hguard : Keeps s a) (hstep : (system cfg).step s a = some t) :
    Marked t ∧ Single cfg s a := by
  obtain ⟨hflow, hmark⟩ := step_eq_some hstep
  have hsrc := Flow.srcStepped hflow
  -- a timeout sets the mark; otherwise recovery is entered only past the last one
  have key : Marked t ∧ (s.flow.src.state ≠ .fastRecov → t.flow.src.state = .fastRecov →
      t.mark ≤ t.flow.src.lastAcked) := by
    unfold Marked at h ⊢
    by_cases htime : s.flow.TimesOut a
    · -- the mark is what is sent, and the guard bounds it
      obtain ⟨hlast, hseq, hstate⟩ := recoverSeq_of_timesOut hsrc htime
      rw [if_pos htime] at hmark
      rw [hmark, hlast, hseq]
      refine ⟨(hguard htime).symm, fun _ hfast => ?_⟩
      rw [hstate] at hfast
      cases hfast
    · have hrec := recovers_of_not_timesOut hsrc htime
      have hup := hrec.lastAcked
      rw [if_neg htime] at hmark
      rw [hmark]
      refine ⟨?_, fun hout hfast => ?_⟩
      · rcases hrec.recoverSeq with hsame | hfull
        · omega
        · omega
      · have hfull := (hrec.enters hfast).resolve_left hout
        omega
  refine ⟨key.1, fun t' ht' => ?_⟩
  have hsame : t' = t := Option.some.inj ((Option.mem_def.mp ht').symm.trans hstep)
  rw [hsame]
  exact key.2

/-- A run keeps the rule if at each of its timeouts everything sent is below
    `_highest_sent` or acked. -/
theorem single_of_keeps (cfg : TcpConfig D) (flowsize duration startTime endtime : Nat)
    (acts : List Flow.Act)
    (hkeeps : (system cfg).Along Keeps (init cfg flowsize duration startTime endtime) acts) :
    (system cfg).Along (Single cfg) (init cfg flowsize duration startTime endtime) acts :=
  Lts.along_of_along marked_step (Or.inl (Nat.zero_le _)) hkeeps

/-- Both first segments are lost, and sent again after a timeout.  Once the window is large
    enough, another one is lost. -/
def oneTimeout : List Flow.Act :=
  [.event, .dataFault (.lose 0), .dataFault (.lose 0)] ++ List.replicate 13 .event ++
    (List.replicate 14 [.deliverData 0, .deliverAck 0]).flatten ++
    [.dataFault (.lose 0), .deliverData 0, .deliverData 0, .deliverData 0, .deliverAck 0,
      .deliverAck 0, .deliverAck 0]

theorem oneTimeout_isSome :
    ((system plainTcp).run (init plainTcp 0 0 0 0) oneTimeout).isSome = true := by
  decide +kernel

/-- There the source enters fast recovery, and keeps the rule. -/
theorem single_of_keeps_oneTimeout :
    (∃ s, (system plainTcp).run (init plainTcp 0 0 0 0) oneTimeout = some s ∧
        s.flow.src.state = .fastRecov ∧ s.mark = 3000) ∧
      (system plainTcp).Along (Single plainTcp) (init plainTcp 0 0 0 0) oneTimeout :=
  ⟨⟨_, (Option.some_get oneTimeout_isSome).symm, by decide +kernel⟩,
    single_of_keeps plainTcp 0 0 0 0 oneTimeout (by decide +kernel)⟩

/-! ## A run that breaks the rule -/

/-- Two segments are sent, and the second is lost.  The acks of the first are late: it is
    sent again at two timeouts, and the second takes 1500 for the recovery point.  The three
    copies arrive; the first ack sends the second segment again, and a third one. -/
def twoTimeouts : List Flow.Act :=
  [.event, .dataFault (.lose 1)] ++ List.replicate 39 .event ++
    [.deliverData 0, .deliverData 0, .deliverData 0, .deliverAck 0, .deliverAck 0,
      .deliverAck 0, .dataFault (.lose 0), .deliverData 0]

theorem twoTimeouts_isSome :
    ((system plainTcp).run (init plainTcp 0 0 0 0) twoTimeouts).isSome = true := by
  decide +kernel

theorem thirdDuplicate_isSome :
    (step plainTcp (((system plainTcp).run (init plainTcp 0 0 0 0) twoTimeouts).get
      twoTimeouts_isSome) (.deliverAck 0)).isSome = true := by
  decide +kernel

/-- The third duplicate ack then starts fast recovery with 1500 bytes acked, and 3000 were
    sent before the timeouts. -/
theorem twoTimeouts_breaks :
    ∃ s t, (system plainTcp).run (init plainTcp 0 0 0 0) twoTimeouts = some s ∧
      (system plainTcp).step s (.deliverAck 0) = some t ∧
      s.flow.src.state ≠ .fastRecov ∧ t.flow.src.state = .fastRecov ∧
      t.flow.src.lastAcked = 1500 ∧ t.mark = 3000 ∧ ¬ Single plainTcp s (.deliverAck 0) := by
  refine ⟨_, _, (Option.some_get twoTimeouts_isSome).symm,
    (Option.some_get thirdDuplicate_isSome).symm, ?_⟩
  decide +kernel

end Episode
end Htsim
end DatacenterNetworking
