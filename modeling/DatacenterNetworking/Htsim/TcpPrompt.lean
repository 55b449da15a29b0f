/-
  DatacenterNetworking.Htsim.TcpPrompt

  `TcpSrc` over a network that does its best: it loses, duplicates and reorders nothing, and
  an ack is back within `R` of the time its segment was sent.  If `R` is less than
  `MIN_RTO_US`, the source never takes a segment for lost.

    * `Prompt`        — such a network, as a guard on the steps of a flow;
    * `InLine`        — segments and acks are where they should be: each segment was sent
      once, and they reach the sink, as their acks do the source, in their order;
    * `Punctual`      — the timer runs out `MIN_RTO_US` after the first segment in flight was
      sent, or later;
    * `prompt_smooth` — in every prompt run; so there is neither a timeout nor fast recovery.

  The times are below `2 ^ 64`, and so is `now + _rto` (`DataPacket`).
-/

import DatacenterNetworking.Htsim.TcpStep

namespace DatacenterNetworking
namespace Htsim
namespace TcpSrc

variable {D : Type} {cfg : TcpConfig D} {now : Nat}

/-! ## Sending in order -/

/-- The segments `k`, ..., `k + n - 1` of a flow, made at `now`. -/
def segments (now k n : Nat) : List DataPacket :=
  (List.range' k n).map fun i => DataPacket.newpkt (i * MSS_BYTES + 1) now

/-- The timer when `n` segments have been sent: it is started if it does not run. -/
def timerAfter (now n rto rtoTimeout : Nat) : Nat :=
  if 0 < n ∧ rtoTimeout = 0 then now + rto else rtoTimeout

/-- The source when it has sent the segments `k`, ..., `k + n - 1`. -/
def sendSegments (now k n : Nat) (s : TcpSrc D) : TcpSrc D :=
  { s with
    toDataSource :=
      { s.toDataSource with
        highestSent := (k + n) * MSS_BYTES
        sent := s.sent ++ (segments now k n).map fun p => ⟨p, s.lastAcked⟩ }
    rtoTimeout := timerAfter now n s.rto s.rtoTimeout }

@[simp] theorem timerAfter_zero (rto rtoTimeout : Nat) :
    timerAfter now 0 rto rtoTimeout = rtoTimeout := if_neg fun h => Nat.lt_irrefl _ h.1

theorem timerAfter_succ (n rto rtoTimeout : Nat) :
    timerAfter now n rto (timerAfter now 1 rto rtoTimeout) =
      timerAfter now (n + 1) rto rtoTimeout := by
  simp only [timerAfter]
  split_ifs <;> omega

theorem sendSegments_zero {k : Nat} {s : TcpSrc D} (hk : s.highestSent = k * MSS_BYTES) :
    sendSegments now k 0 s = s := by
  simp only [sendSegments, segments, List.range'_zero, List.map_nil, List.append_nil, Nat.add_zero,
    ← hk, timerAfter_zero]

theorem sendNext_eq {k : Nat} {s : TcpSrc D} (hk : s.highestSent = k * MSS_BYTES) :
    sendNext now s = sendSegments now k 1 s := by
  have htimer : ∀ rto t : Nat,
      timerAfter now 1 rto t = if t = 0 then now + rto else t := by
    intro rto t
    simp only [timerAfter]
    split_ifs <;> omega
  simp only [sendNext, armRto, sendSegments, htimer, Nat.succ_mul, ← hk]
  split_ifs with hzero
  · simp only [segments, hk]
    rfl
  · simp only [segments, hk]
    rfl

theorem sendSegments_succ (k n : Nat) (s : TcpSrc D) :
    sendSegments now (k + 1) n (sendSegments now k 1 s) = sendSegments now k (n + 1) s := by
  have hcount : k + 1 + n = k + (n + 1) := by omega
  have hsent : s.sent ++ (segments now k 1).map (fun p => (⟨p, s.lastAcked⟩ : Sent)) ++
      (segments now (k + 1) n).map (fun p => ⟨p, s.lastAcked⟩) =
      s.sent ++ (segments now k (n + 1)).map fun p => ⟨p, s.lastAcked⟩ := by
    rw [List.append_assoc, ← List.map_append, segments, segments, segments, ← List.map_append]
    rfl
  simp only [sendSegments, timerAfter_succ, hcount, hsent]

theorem sendLoop_segments (fuel : Nat) {k : Nat} {s : TcpSrc D}
    (hk : s.highestSent = k * MSS_BYTES) : ∃ n, sendLoop now fuel s = sendSegments now k n s := by
  induction fuel generalizing k s with
  | zero => exact ⟨0, (sendSegments_zero hk).symm⟩
  | succ fuel ih =>
    simp only [sendLoop, sendNext_eq hk]
    split_ifs
    · exact ⟨1, rfl⟩
    · obtain ⟨n, hn⟩ := ih (k := k + 1) (s := sendSegments now k 1 s) rfl
      exact ⟨n + 1, hn.trans (sendSegments_succ k n s)⟩
    · exact ⟨0, (sendSegments_zero hk).symm⟩

/-- What `sendPackets` sends are the next segments. -/
theorem sendPackets_segments {k : Nat} {s : TcpSrc D} (hk : s.highestSent = k * MSS_BYTES) :
    ∃ n, sendPackets now s = sendSegments now k n s := by
  simp only [sendPackets]
  split_ifs
  · exact ⟨0, (sendSegments_zero hk).symm⟩
  · exact sendLoop_segments _ hk

/-- Only the event list changes. -/
def withPending (times : List Nat) (s : TcpSrc D) : TcpSrc D :=
  { s with toDataSource := { s.toDataSource with pending := times } }

theorem scheduleCheck_withPending (now : Nat) (s : TcpSrc D) :
    ∃ times, scheduleCheck now s = withPending times s := scheduleCheck_eq now s

/-- The source that starts, before it sends. -/
def begun (s : TcpSrc D) : TcpSrc D :=
  { s with state := .slowStart, cwnd := 2 * MSS_BYTES, dctcpCwnd := 2 * MSS_BYTES }

/-! ## The ack that is expected -/

/-- The source when it has taken a new ack outside fast recovery. -/
def taken (cfg : TcpConfig D) (now : Nat) (a : DataAck) (s : TcpSrc D) : TcpSrc D :=
  { restartTimer now a.ackno (updateDctcp cfg a.ecnRev (updateRtt now a.ts s)) with
    lastAcked := a.ackno
    dupacks := 0 }

/-- The source when it has inflated its window for a new ack, before it sends. -/
def expected (cfg : TcpConfig D) (now : Nat) (a : DataAck) (s : TcpSrc D) : TcpSrc D :=
  inflateWindow (taken cfg now a s)

theorem updateRtt_rto {ts : Nat} {s : TcpSrc D} (h : minRto ≤ s.rto) :
    minRto ≤ (updateRtt now ts s).rto := by
  simp only [updateRtt]
  split_ifs
  all_goals first
    | exact le_max_right _ _
    | exact h

/-- DCTCP changes neither the timer nor its duration, and starts no fast recovery. -/
theorem updateDctcp_spec (ecnRev : Bool) (s : TcpSrc D) :
    (updateDctcp cfg ecnRev s).rto = s.rto ∧
      (s.state ≠ .fastRecov → (updateDctcp cfg ecnRev s).state ≠ .fastRecov) := by
  have hmark : (countMark ecnRev s).rto = s.rto ∧
      (s.state ≠ .fastRecov → (countMark ecnRev s).state ≠ .fastRecov) := by
    simp only [countMark]
    split_ifs
    · refine ⟨rfl, fun _ hfast => ?_⟩
      cases hfast
    · exact ⟨rfl, id⟩
    · exact ⟨rfl, id⟩
  have halpha : ∀ u : TcpSrc D, (updateAlpha cfg u).rto = u.rto := by
    intro u
    simp only [updateAlpha]
    split_ifs <;> rfl
  simp only [updateDctcp]
  split_ifs
  · rw [halpha, updateAlpha_state]
    exact hmark
  · exact hmark
  · exact ⟨rfl, id⟩

theorem inflateWindow_spec (s : TcpSrc D) :
    (inflateWindow s).rto = s.rto ∧ (inflateWindow s).rtoTimeout = s.rtoTimeout := by
  simp only [inflateWindow]
  split_ifs <;> exact ⟨rfl, rfl⟩

variable {a : DataAck} {s : TcpSrc D}

theorem expected_source :
    (expected cfg now a s).toDataSource = { s.toDataSource with lastAcked := a.ackno } := by
  rw [expected, inflateWindow_source]
  show ({ (updateDctcp cfg a.ecnRev (updateRtt now a.ts s)).toDataSource with
    lastAcked := a.ackno } : DataSource) = _
  rw [updateDctcp_source, updateRtt_source]

theorem expected_state (hfast : s.state ≠ .fastRecov) :
    (expected cfg now a s).state ≠ .fastRecov := by
  rw [expected, inflateWindow_state]
  refine (updateDctcp_spec _ _).2 ?_
  rw [updateRtt_state]
  exact hfast

/-- The timer is stopped when all that was sent is acked, or else restarted, with at least
    `MIN_RTO_US`. -/
theorem expected_timer (hrto : minRto ≤ s.rto) :
    minRto ≤ (expected cfg now a s).rto ∧
      ((expected cfg now a s).rtoTimeout = 0 ∨
        a.ackno ≠ s.highestSent ∧ now + minRto ≤ (expected cfg now a s).rtoTimeout) := by
  obtain ⟨hkeep, htimer⟩ := inflateWindow_spec (taken cfg now a s)
  have hlong : minRto ≤ (updateDctcp cfg a.ecnRev (updateRtt now a.ts s)).rto := by
    rw [(updateDctcp_spec _ _).1]
    exact updateRtt_rto hrto
  have hhigh : (updateDctcp cfg a.ecnRev (updateRtt now a.ts s)).highestSent = s.highestSent := by
    rw [updateDctcp_source, updateRtt_source]
  rw [expected, hkeep, htimer]
  refine ⟨hlong, ?_⟩
  simp only [taken, restartTimer, hhigh]
  split_ifs with hall
  · exact Or.inl rfl
  · exact Or.inr ⟨hall, Nat.add_le_add_left hlong now⟩

theorem receivePacket_expected (hfin : s.state ≠ .finish) (hfast : s.state ≠ .fastRecov)
    (hgo : ¬ s.Completes now a.ackno) (hnew : s.lastAcked < a.ackno) :
    receivePacket cfg now a s = sendPackets now (expected cfg now a s) := by
  have hsame : (updateDctcp cfg a.ecnRev (updateRtt now a.ts s)).toDataSource =
      s.toDataSource := by rw [updateDctcp_source, updateRtt_source]
  have hstate : (restartTimer now a.ackno
      (updateDctcp cfg a.ecnRev (updateRtt now a.ts s))).state ≠ .fastRecov := by
    refine (updateDctcp_spec _ _).2 ?_
    rw [updateRtt_state]
    exact hfast
  have hnew' : (updateDctcp cfg a.ecnRev (updateRtt now a.ts s)).lastAcked < a.ackno := by
    rw [hsame]
    exact hnew
  rw [receivePacket_eq hfin hgo, if_neg (Nat.lt_asymm hnew), processAck, if_pos hnew']
  simp only [newAck]
  rw [if_pos hstate, expected, taken]

end TcpSrc

namespace Flow

open TcpSrc

variable {D : Type} {cfg : TcpConfig D}

/-! ## Prompt networks -/

/-- When the segments in flight were sent, of those that the sink has got and answered first. -/
def flight (s : Flow (TcpSrc D) TcpSink) : List Nat :=
  s.acks.map DataAck.ts ++ s.data.map DataPacket.ts

/-- Packets arrive in order, none is lost or duplicated, and nothing is in flight for longer than
    `R` after its segment was sent. -/
def Prompt (R : Nat) (s : Flow (TcpSrc D) TcpSink) : Act → Prop
  | .event => ∀ time ∈ s.src.pending.min?, ∀ t ∈ s.flight, time ≤ t + R
  | .advance time => ∀ t ∈ s.flight, time ≤ t + R
  | .deliverData i => i = 0
  | .deliverAck i => i = 0
  | .dataFault _ => False
  | .ackFault _ => False
  | .markEcn _ => True

instance (R : Nat) (s : Flow (TcpSrc D) TcpSink) : ∀ a : Act, Decidable (s.Prompt R a)
  | .event => inferInstanceAs (Decidable (∀ time ∈ s.src.pending.min?, _))
  | .advance _ => inferInstanceAs (Decidable (∀ t ∈ s.flight, _))
  | .deliverData i | .deliverAck i => inferInstanceAs (Decidable (i = 0))
  | .dataFault _ | .ackFault _ => inferInstanceAs (Decidable False)
  | .markEcn _ => inferInstanceAs (Decidable True)

/-- The acks `rest` are in flight. -/
def withAcks (rest : List DataAck) (s : Flow (TcpSrc D) TcpSink) : Flow (TcpSrc D) TcpSink :=
  { s with acks := rest }

/-- What a step of a prompt network is. -/
inductive PromptStep (cfg : TcpConfig D) (R : Nat) (s : Flow (TcpSrc D) TcpSink) :
    Act → Flow (TcpSrc D) TcpSink → Prop
  | event {time : Nat} {src : TcpSrc D} (hmin : s.src.pending.min? = some time)
      (hnow : s.now ≤ time) (hlate : ∀ t ∈ s.flight, time ≤ t + R)
      (hnext : NextEvent time (s.popEvent (tcpEndhost cfg) time).src src) :
      PromptStep cfg R s .event ((s.popEvent (tcpEndhost cfg) time).handOn (tcpEndhost cfg) src)
  | deleted {time : Nat} (hnow : s.now ≤ time) (hlate : ∀ t ∈ s.flight, time ≤ t + R)
      (hfin : s.src.state = .finish) :
      PromptStep cfg R s .event { s.popEvent (tcpEndhost cfg) time with alive := false }
  | advance {time : Nat} (hnow : s.now ≤ time) (hnext : ∀ w ∈ s.src.pending, time ≤ w)
      (hlate : ∀ t ∈ s.flight, time ≤ t + R) :
      PromptStep cfg R s (.advance time) { s with now := time }
  | data {p : DataPacket} {rest : List DataPacket} (hdata : s.data = p :: rest) :
      PromptStep cfg R s (.deliverData 0)
        { s with
          data := rest
          sink := (TcpSink.receivePacket p s.sink).1
          acks := s.acks ++ [(TcpSink.receivePacket p s.sink).2]
          rcvd := s.rcvd ++ [p] }
  | ack {a : DataAck} {rest : List DataAck} (hacks : s.acks = a :: rest) :
      PromptStep cfg R s (.deliverAck 0)
        ((withAcks rest s).handOn (tcpEndhost cfg) (receivePacket cfg s.now a s.src))
  | mark {i : Nat} {p : DataPacket} (hp : s.data[i]? = some p) :
      PromptStep cfg R s (.markEcn i) { s with data := s.data.set i { p with ecnFwd := true } }

/-- The first of the packets in flight is delivered. -/
theorem deliver_zero {α : Type*} {chan : List α} {r : α × List α} (h : deliver chan 0 = some r) :
    chan = r.1 :: r.2 := by
  cases chan with
  | nil => cases h
  | cons m rest =>
    cases h
    rfl

theorem promptStep {R : Nat} {s t : Flow (TcpSrc D) TcpSink} {a : Act} (hprompt : s.Prompt R a)
    (hstep : (system (tcpEndhost cfg)).step s a = some t) : PromptStep cfg R s a t := by
  have h := act_of_step hstep
  cases a with
  | event =>
    obtain ⟨time, hmin, hnow, ⟨src, hnext, rfl⟩ | ⟨hnext, rfl⟩⟩ := event_cases hstep
    · exact .event hmin hnow (hprompt time hmin) (nextEvent hnext)
    · have hfin : (s.popEvent (tcpEndhost cfg) time).src.state = .finish := finish_of_deleted hnext
      exact .deleted hnow (hprompt time hmin) hfin
  | advance time =>
    simp only [act] at h
    split_ifs at h with hnow
    cases h
    exact .advance hnow.1 hnow.2 hprompt
  | deliverData i =>
    cases hprompt
    obtain ⟨⟨p, data⟩, hdel, h⟩ := Option.map_eq_some_iff.mp h
    cases h
    exact .data (deliver_zero hdel)
  | deliverAck i =>
    cases hprompt
    obtain ⟨⟨a, acks⟩, hdel, h⟩ := Option.map_eq_some_iff.mp h
    cases h
    exact .ack (deliver_zero hdel)
  | dataFault f => exact absurd hprompt id
  | ackFault f => exact absurd hprompt id
  | markEcn i =>
    obtain ⟨p, hp, h⟩ := Option.map_eq_some_iff.mp h
    cases h
    exact .mark hp

/-! ## Segments and acks in line -/

/-- A packet as it was sent. -/
def unmarked (p : DataPacket) : DataPacket := { p with ecnFwd := false }

/-- How many segments are answered by acks that have arrived. -/
def heard (s : Flow (TcpSrc D) TcpSink) : Nat := s.rcvd.length - s.acks.length

/-- Segment `i` is the packet sent `i`-th; those that the sink has got and those in flight are all
    of them, in order; and the acks in flight answer the last that the sink has got. -/
structure InLine (s : Flow (TcpSrc D) TcpSink) : Prop where
  numbered : ∀ i p, (s.src.sent.map Sent.pkt)[i]? = some p →
    p = DataPacket.newpkt (i * MSS_BYTES + 1) p.ts
  highestSent : s.src.highestSent = s.src.sent.length * MSS_BYTES
  line : (s.rcvd ++ s.data).map unmarked = s.src.sent.map Sent.pkt
  sink : s.sink = { cumulativeAck := s.rcvd.length * MSS_BYTES, received := [] }
  answered : s.acks.length ≤ s.rcvd.length
  acks : s.acks.map (fun a => (a.ackno, a.ts)) =
    (s.rcvd.drop s.heard).map fun p => (p.seqno + (MSS_BYTES - 1), p.ts)
  lastAcked : s.src.state ≠ .finish → s.src.lastAcked = s.heard * MSS_BYTES

theorem inLine_init (flowsize duration startTime endtime : Nat) :
    (init (tcpEndhost cfg) flowsize duration startTime endtime).InLine := by
  obtain ⟨-, -, hhigh, hlow, hsent, -⟩ :=
    DataSource.new_spec flowsize duration startTime endtime
  have hsent' : (init (tcpEndhost cfg) flowsize duration startTime endtime).src.sent = [] := hsent
  constructor
  · rw [hsent']
    exact fun i e he => by cases he
  · rw [hsent']
    exact hhigh.trans (Nat.zero_mul _).symm
  · rw [hsent']
    rfl
  · rw [init]
    exact congrArg (fun c => ({ cumulativeAck := c, received := [] } : DataSink))
      (Nat.zero_mul _).symm
  · exact le_rfl
  · rfl
  · exact fun _ => hlow.trans (Nat.zero_mul _).symm

variable {s : Flow (TcpSrc D) TcpSink}

/-- Packet `i` of those that are in flight or got is segment `i`. -/
theorem InLine.getElem? (h : InLine s) {i : Nat} {p : DataPacket}
    (hp : (s.rcvd ++ s.data)[i]? = some p) :
    p.seqno = i * MSS_BYTES + 1 ∧ p.size = MSS_BYTES ∧
      ∃ e, s.src.sent[i]? = some e ∧ e.pkt.ts = p.ts := by
  have hget : (s.src.sent.map Sent.pkt)[i]? = some (unmarked p) := by
    rw [← h.line, List.getElem?_map, hp]
    rfl
  have hnum := h.numbered i _ hget
  rw [List.getElem?_map] at hget
  obtain ⟨e, he, hpkt⟩ := Option.map_eq_some_iff.mp hget
  refine ⟨congrArg DataPacket.seqno hnum, congrArg DataPacket.size hnum, e, he, ?_⟩
  rw [hpkt]
  rfl

theorem InLine.length (h : InLine s) : s.rcvd.length + s.data.length = s.src.sent.length := by
  have hlen := congrArg List.length h.line
  rwa [List.length_map, List.length_append, List.length_map] at hlen

/-- What is in flight was sent last. -/
theorem InLine.flight_eq (h : InLine s) :
    s.flight = (s.src.sent.drop s.heard).map fun e => e.pkt.ts := by
  have hline := congrArg (List.map DataPacket.ts) h.line
  rw [List.map_map, List.map_map] at hline
  have hacks := congrArg (List.map Prod.snd) h.acks
  rw [List.map_map, List.map_map] at hacks
  have hle : s.heard ≤ s.rcvd.length := Nat.sub_le _ _
  have hts : (s.rcvd ++ s.data).map DataPacket.ts = s.src.sent.map fun e => e.pkt.ts := hline
  calc s.flight = (s.rcvd.drop s.heard).map DataPacket.ts ++ s.data.map DataPacket.ts := by
        rw [flight]
        exact congrArg (· ++ _) hacks
    _ = ((s.rcvd ++ s.data).drop s.heard).map DataPacket.ts := by
        rw [List.drop_append_of_le_length hle, List.map_append]
    _ = (s.src.sent.drop s.heard).map fun e => e.pkt.ts := by
        rw [List.map_drop, hts, List.map_drop]

/-- What is in flight is not acked. -/
theorem InLine.heard_lt (h : InLine s) {t : Nat} (ht : t ∈ s.flight) :
    s.heard < s.src.sent.length := by
  rw [h.flight_eq] at ht
  by_contra hle
  rw [List.drop_of_length_le (Nat.le_of_not_lt hle)] at ht
  cases ht

/-- The first ack in flight is for the first segment that is not acked. -/
theorem InLine.next_ack (h : InLine s) {a : DataAck} {rest : List DataAck}
    (hacks : s.acks = a :: rest) :
    a.ackno = (s.heard + 1) * MSS_BYTES ∧ s.heard + 1 = s.rcvd.length - rest.length ∧
      rest.length ≤ s.rcvd.length ∧
      rest.map (fun a => (a.ackno, a.ts)) =
        (s.rcvd.drop (s.heard + 1)).map fun p => (p.seqno + (MSS_BYTES - 1), p.ts) := by
  have hlen := h.answered
  have hline := h.acks
  rw [hacks, List.length_cons] at hlen
  have hheard : s.heard + 1 = s.rcvd.length - rest.length := by
    rw [heard, hacks, List.length_cons]
    omega
  have hlt : s.heard < s.rcvd.length := by omega
  rw [hacks, List.map_cons, List.drop_eq_getElem_cons hlt, List.map_cons] at hline
  injection hline with hhead htail
  refine ⟨?_, hheard, by omega, htail⟩
  -- segment `heard` ends there
  have hget : (s.rcvd ++ s.data)[s.heard]? = some s.rcvd[s.heard] := by
    rw [List.getElem?_append_left hlt, List.getElem?_eq_getElem hlt]
  have hmss : 0 < MSS_BYTES := by decide
  have hackno : a.ackno = s.rcvd[s.heard].seqno + (MSS_BYTES - 1) := congrArg Prod.fst hhead
  rw [hackno, (h.getElem? hget).1, Nat.succ_mul]
  omega

/-- The first segment in flight is the next for the sink. -/
theorem InLine.next_data (h : InLine s) {p : DataPacket} {rest : List DataPacket}
    (hdata : s.data = p :: rest) :
    TcpSink.receivePacket p s.sink =
      ({ cumulativeAck := (s.rcvd.length + 1) * MSS_BYTES, received := [] },
        { seqno := 1, ackno := p.seqno + (MSS_BYTES - 1), ts := p.ts, ecnRev := p.ecnFwd }) := by
  have hget : (s.rcvd ++ s.data)[s.rcvd.length]? = some p := by
    rw [List.getElem?_append_right le_rfl, Nat.sub_self, hdata]
    rfl
  obtain ⟨hseq, hsize, -⟩ := h.getElem? hget
  have hmss : 0 < MSS_BYTES := by decide
  have hack : (s.rcvd.length + 1) * MSS_BYTES = p.seqno + (MSS_BYTES - 1) := by
    rw [hseq, Nat.succ_mul]
    omega
  have hlast : p.seqno + p.size - 1 = (s.rcvd.length + 1) * MSS_BYTES := by
    rw [hack, hsize]
    omega
  have hnext : s.sink.processDataPacket p =
      { cumulativeAck := (s.rcvd.length + 1) * MSS_BYTES, received := [] } := by
    rw [h.sink, DataSink.processDataPacket, if_pos hseq, hlast]
    rfl
  simp only [TcpSink.receivePacket, hnext, hack]

/-- More segments are sent, and the acks before `heard` have arrived. -/
theorem InLine.sends (h : InLine s) {t : Flow (TcpSrc D) TcpSink} {now n : Nat}
    (hsent : t.src.sent.map Sent.pkt =
      s.src.sent.map Sent.pkt ++ segments now s.src.sent.length n)
    (hhigh : t.src.highestSent = (s.src.sent.length + n) * MSS_BYTES)
    (hdata : t.data = s.data ++ segments now s.src.sent.length n) (hrcvd : t.rcvd = s.rcvd)
    (hsink : t.sink = s.sink) (hanswered : t.acks.length ≤ t.rcvd.length)
    (hacks : t.acks.map (fun a => (a.ackno, a.ts)) =
      (t.rcvd.drop t.heard).map fun p => (p.seqno + (MSS_BYTES - 1), p.ts))
    (hlast : t.src.state ≠ .finish → t.src.lastAcked = t.heard * MSS_BYTES) : InLine t where
  numbered := fun i p hp => by
    rw [hsent] at hp
    rcases Nat.lt_or_ge i s.src.sent.length with hlt | hge
    · rw [List.getElem?_append_left (by rw [List.length_map]; exact hlt)] at hp
      exact h.numbered i p hp
    · -- one of the new segments
      rw [List.getElem?_append_right (by rw [List.length_map]; exact hge), List.length_map,
        segments, List.getElem?_map] at hp
      obtain ⟨j, hj, rfl⟩ := Option.map_eq_some_iff.mp hp
      obtain ⟨hlt, hj⟩ := List.getElem?_eq_some_iff.mp hj
      have hij : j = i := by
        rw [← hj, List.getElem_range' hlt]
        omega
      rw [hij]
      rfl
  highestSent := by
    have hlen := congrArg List.length hsent
    rw [List.length_append, List.length_map, List.length_map, segments, List.length_map,
      List.length_range'] at hlen
    rw [hhigh, hlen]
  line := by
    rw [hrcvd, hdata, hsent, ← List.append_assoc, List.map_append, h.line, segments, List.map_map]
    rfl
  sink := by
    rw [hsink, hrcvd]
    exact h.sink
  answered := hanswered
  acks := hacks
  lastAcked := hlast

/-- A segment reaches the sink. -/
theorem InLine.delivers (h : InLine s) {p : DataPacket} {rest : List DataPacket}
    (hdata : s.data = p :: rest) :
    InLine
      { s with
        data := rest
        sink := (TcpSink.receivePacket p s.sink).1
        acks := s.acks ++ [(TcpSink.receivePacket p s.sink).2]
        rcvd := s.rcvd ++ [p] } := by
  have hans := h.answered
  rw [h.next_data hdata]
  have hheard : (s.rcvd ++ [p]).length - (s.acks ++ [(⟨1, p.seqno + (MSS_BYTES - 1), p.ts,
      p.ecnFwd⟩ : DataAck)]).length = s.heard := by
    rw [List.length_append, List.length_append, List.length_singleton, List.length_singleton, heard]
    omega
  constructor
  · exact h.numbered
  · exact h.highestSent
  · show ((s.rcvd ++ [p]) ++ rest).map unmarked = _
    rw [List.append_assoc, List.singleton_append, ← hdata]
    exact h.line
  · show _ = ({ cumulativeAck := (s.rcvd ++ [p]).length * MSS_BYTES, received := [] } : DataSink)
    rw [List.length_append, List.length_singleton]
  · show (s.acks ++ [_]).length ≤ (s.rcvd ++ [p]).length
    rw [List.length_append, List.length_append]
    exact Nat.add_le_add_right hans 1
  · show (s.acks ++ [_]).map _ = ((s.rcvd ++ [p]).drop (_ - _)).map _
    have hle : s.heard ≤ s.rcvd.length := Nat.sub_le _ _
    rw [hheard, List.drop_append_of_le_length hle, List.map_append, List.map_append, h.acks]
    rfl
  · intro hfin
    show s.src.lastAcked = (_ - _) * MSS_BYTES
    rw [hheard]
    exact h.lastAcked hfin

/-- A mark changes nothing. -/
theorem InLine.marks (h : InLine s) {i : Nat} {p : DataPacket} (hp : s.data[i]? = some p) :
    InLine { s with data := s.data.set i { p with ecnFwd := true } } := by
  refine ⟨h.numbered, h.highestSent, ?_, h.sink, h.answered, h.acks, h.lastAcked⟩
  have hsame : (s.data.set i { p with ecnFwd := true }).map unmarked = s.data.map unmarked := by
    obtain ⟨hi, rfl⟩ := List.getElem?_eq_some_iff.mp hp
    rw [List.map_set]
    show (s.data.map unmarked).set i (unmarked s.data[i]) = _
    have hlen : i < (s.data.map unmarked).length := by
      rw [List.length_map]
      exact hi
    rw [← List.getElem_map unmarked (h := hlen), List.set_getElem_self]
  show (s.rcvd ++ _).map unmarked = _
  rw [List.map_append, hsame, ← List.map_append]
  exact h.line

/-! ## The timer -/

/-- No packet is from the future, and the timer runs out `MIN_RTO_US` after the first segment in
    flight was sent, or later. -/
structure Punctual (s : Flow (TcpSrc D) TcpSink) : Prop where
  past : ∀ t ∈ s.flight, t ≤ s.now
  rto : minRto ≤ s.src.rto
  timer : s.src.state ≠ .finish → s.src.rtoTimeout ≠ 0 →
    ∃ t ∈ s.flight.head?, t + minRto ≤ s.src.rtoTimeout
  noRecovery : s.src.state ≠ .fastRecov

theorem punctual_init (flowsize duration startTime endtime : Nat) :
    (init (tcpEndhost cfg) flowsize duration startTime endtime).Punctual where
  past := fun _ ht => absurd ht List.not_mem_nil
  rto := by
    show minRto ≤ initRto
    decide
  timer := fun _ htimer => absurd rfl htimer
  noRecovery := fun hfast => by cases hfast

/-- Segments that are sent are behind those in flight, and start the timer if it does not run. -/
theorem punctual_sends {s : Flow (TcpSrc D) TcpSink} {l : List Nat} {n rto rtoTimeout : Nat}
    (hpast : ∀ t ∈ l, t ≤ s.now) (hflight : s.flight = l ++ List.replicate n s.now)
    (hrto : minRto ≤ rto) (hkeep : s.src.rto = rto)
    (htimer : s.src.state ≠ .finish → rtoTimeout ≠ 0 →
      ∃ t ∈ l.head?, t + minRto ≤ rtoTimeout)
    (hset : s.src.rtoTimeout = timerAfter s.now n rto rtoTimeout)
    (hfast : s.src.state ≠ .fastRecov) : Punctual s where
  past := fun t ht => by
    rw [hflight] at ht
    rcases List.mem_append.mp ht with ht | ht
    · exact hpast t ht
    · exact (List.eq_of_mem_replicate ht).le
  rto := by
    rw [hkeep]
    exact hrto
  timer := fun hfin hruns => by
    rw [hset] at hruns ⊢
    rw [hflight]
    by_cases hzero : rtoTimeout = 0
    · -- it has been started now, for the first of all in flight
      have hpos : 0 < n := by
        by_contra hnone
        rw [Nat.eq_zero_of_not_pos hnone, timerAfter_zero] at hruns
        exact hruns hzero
      rw [timerAfter, if_pos ⟨hpos, hzero⟩]
      obtain ⟨m, rfl⟩ := Nat.exists_eq_succ_of_ne_zero hpos.ne'
      cases l with
      | nil => exact ⟨s.now, rfl, Nat.add_le_add_left hrto s.now⟩
      | cons t l =>
        exact ⟨t, rfl, Nat.add_le_add (hpast t List.mem_cons_self) hrto⟩
    · rw [timerAfter, if_neg fun h => hzero h.2]
      obtain ⟨t, ht, hle⟩ := htimer hfin hzero
      refine ⟨t, ?_, hle⟩
      rw [Option.mem_def] at ht ⊢
      rw [List.head?_append, ht]
      rfl
  noRecovery := hfast

/-- In a prompt network the timer does not run out. -/
theorem Punctual.not_expired {R time : Nat} (h : Punctual s) (hR : R < minRto)
    (hlate : ∀ t ∈ s.flight, time ≤ t + R) (hfin : s.src.state ≠ .finish) :
    ¬ (s.src.rtoTimeout ≠ 0 ∧ s.src.rtoTimeout ≤ time) := by
  rintro ⟨hruns, hexpired⟩
  obtain ⟨t, ht, hle⟩ := h.timer hfin hruns
  have hlate' := hlate t (List.mem_of_mem_head? ht)
  omega

/-! ## Prompt runs -/

/-- Segments and acks are in line, and the timer will not run out. -/
structure Smooth (s : Flow (TcpSrc D) TcpSink) : Prop where
  inLine : InLine s
  punctual : Punctual s

/-- The source, now `u`, sends `n` segments from `base` on, which is `s` but for the time and the
    acks that have arrived. -/
theorem smooth_handOn (base : Flow (TcpSrc D) TcpSink) {src u : TcpSrc D} {n : Nat}
    (times : List Nat) (h : InLine s) (hbase : base.src.sent = s.src.sent ∧ base.data = s.data ∧
      base.rcvd = s.rcvd ∧ base.sink = s.sink)
    (hanswered : base.acks.length ≤ s.rcvd.length)
    (hacks : base.acks.map (fun a => (a.ackno, a.ts)) =
      (s.rcvd.drop base.heard).map fun p => (p.seqno + (MSS_BYTES - 1), p.ts))
    (hsent : u.sent = s.src.sent)
    (hlast : u.state ≠ .finish → u.lastAcked = base.heard * MSS_BYTES)
    (hsrc : src = withPending times (sendSegments base.now s.src.sent.length n u))
    (hpast : ∀ t ∈ base.flight, t ≤ base.now) (hrto : minRto ≤ u.rto)
    (htimer : u.state ≠ .finish → u.rtoTimeout ≠ 0 →
      ∃ t ∈ base.flight.head?, t + minRto ≤ u.rtoTimeout)
    (hfast : u.state ≠ .fastRecov) : Smooth (base.handOn (tcpEndhost cfg) src) := by
  obtain ⟨hbsrc, hbdata, hbrcvd, hbsink⟩ := hbase
  have hall : src.sent = s.src.sent ++
      (segments base.now s.src.sent.length n).map fun p => ⟨p, u.lastAcked⟩ := by
    rw [hsrc, ← hsent]
    rfl
  have hdata : (base.handOn (tcpEndhost cfg) src).data =
      s.data ++ segments base.now s.src.sent.length n := by
    show base.data ++ (src.sent.drop base.src.sent.length).map Sent.pkt = _
    rw [hbdata, hbsrc, hall, List.drop_left, List.map_map]
    exact congrArg (s.data ++ ·) (List.map_id _)
  constructor
  · refine InLine.sends h (n := n) ?_ ?_ hdata hbrcvd hbsink ?_ ?_ ?_
    · show src.sent.map Sent.pkt = _
      rw [hall, List.map_append, List.map_map]
      exact congrArg (s.src.sent.map Sent.pkt ++ ·) (List.map_id _)
    · show src.highestSent = _
      rw [hsrc]
      rfl
    · show base.acks.length ≤ base.rcvd.length
      rw [hbrcvd]
      exact hanswered
    · show base.acks.map _ = (base.rcvd.drop base.heard).map _
      rw [hbrcvd]
      exact hacks
    · intro hfin
      have hfin' : u.state ≠ .finish := by
        rw [show (base.handOn (tcpEndhost cfg) src).src.state = src.state from rfl, hsrc] at hfin
        exact hfin
      show src.lastAcked = base.heard * MSS_BYTES
      rw [hsrc]
      exact hlast hfin'
  · have hstate : src.state = u.state := by
      rw [hsrc]
      rfl
    have hts : (segments base.now s.src.sent.length n).map DataPacket.ts =
        List.replicate n base.now := by
      rw [segments, List.map_map]
      exact List.eq_replicate_iff.mpr
        ⟨by rw [List.length_map, List.length_range'], fun t ht => by
          obtain ⟨i, -, rfl⟩ := List.mem_map.mp ht
          rfl⟩
    have hruns : src.state ≠ .finish → u.rtoTimeout ≠ 0 →
        ∃ t ∈ base.flight.head?, t + minRto ≤ u.rtoTimeout := by
      rw [hstate]
      exact htimer
    refine punctual_sends (l := base.flight) (n := n) hpast ?_ hrto ?_ hruns ?_ ?_
    · show base.acks.map _ ++ (base.handOn (tcpEndhost cfg) src).data.map _ = _
      rw [hdata, List.map_append, hts, flight, hbdata, List.append_assoc]
      rfl
    · show src.rto = u.rto
      rw [hsrc]
      rfl
    · show src.rtoTimeout = timerAfter base.now n u.rto u.rtoTimeout
      rw [hsrc]
      rfl
    · show src.state ≠ .fastRecov
      rw [hstate]
      exact hfast

/-- Time goes on, as far as the network lets it. -/
theorem Punctual.mono {t : Flow (TcpSrc D) TcpSink} (h : Punctual s) (hnow : s.now ≤ t.now)
    (hflight : t.flight = s.flight) (hrto : t.src.rto = s.src.rto)
    (htimer : t.src.rtoTimeout = s.src.rtoTimeout) (hstate : t.src.state = s.src.state) :
    Punctual t where
  past := fun x hx => by
    rw [hflight] at hx
    exact (h.past x hx).trans hnow
  rto := by
    rw [hrto]
    exact h.rto
  timer := by
    rw [hflight, htimer, hstate]
    exact h.timer
  noRecovery := by
    rw [hstate]
    exact h.noRecovery

/-- The source has an event: it starts, or looks at its timer. -/
theorem smooth_event {R time : Nat} {src : TcpSrc D} (h : Smooth s) (hR : R < minRto)
    (hnow : s.now ≤ time) (hlate : ∀ t ∈ s.flight, time ≤ t + R)
    (hnext : NextEvent time (s.popEvent (tcpEndhost cfg) time).src src) :
    Smooth ((s.popEvent (tcpEndhost cfg) time).handOn (tcpEndhost cfg) src) := by
  have hpast : ∀ t ∈ s.flight, t ≤ time := fun t ht => (h.punctual.past t ht).trans hnow
  -- the source is `u` before it sends
  have hsends : ∀ (u : TcpSrc D) (n : Nat) (times : List Nat), u.sent = s.src.sent →
      u.lastAcked = s.src.lastAcked → (u.state ≠ .finish → s.src.state ≠ .finish) →
      u.rto = s.src.rto → u.rtoTimeout = s.src.rtoTimeout → u.state ≠ .fastRecov →
      src = withPending times (sendSegments time s.src.sent.length n u) →
      Smooth ((s.popEvent (tcpEndhost cfg) time).handOn (tcpEndhost cfg) src) := by
    intro u n times hsent hlow hfin hrto htimer hfast hsrc
    refine smooth_handOn (s.popEvent (tcpEndhost cfg) time) times h.inLine ⟨rfl, rfl, rfl, rfl⟩
      h.inLine.answered h.inLine.acks hsent ?_ hsrc hpast ?_ ?_ hfast
    · rw [hlow]
      exact fun hu => h.inLine.lastAcked (hfin hu)
    · rw [hrto]
      exact h.punctual.rto
    · rw [htimer]
      exact fun hu => h.punctual.timer (hfin hu)
  have hhigh : s.src.highestSent = s.src.sent.length * MSS_BYTES := h.inLine.highestSent
  cases hnext with
  | start hidle =>
    have hidle' : s.src.state = .idle := hidle
    obtain ⟨n, hn⟩ := @sendPackets_segments _ time s.src.sent.length
      (begun (s.popEvent (tcpEndhost cfg) time).src) hhigh
    obtain ⟨times, htimes⟩ := scheduleCheck_withPending time
      (sendSegments time s.src.sent.length n (begun (s.popEvent (tcpEndhost cfg) time).src))
    refine hsends (begun (s.popEvent (tcpEndhost cfg) time).src) n times rfl rfl (fun _ => ?_) rfl
      rfl (fun hfast => by cases hfast) ?_
    · rw [hidle']
      exact fun hfin => by cases hfin
    · exact (congrArg (scheduleCheck time) hn).trans htimes
  | expire hidle hfin htimer =>
    exact absurd htimer (h.punctual.not_expired hR hlate hfin)
  | check hidle hwait =>
    obtain ⟨times, htimes⟩ := scheduleCheck_withPending time (s.popEvent (tcpEndhost cfg) time).src
    refine hsends (s.popEvent (tcpEndhost cfg) time).src 0 times rfl rfl id rfl rfl
      h.punctual.noRecovery ?_
    rw [sendSegments_zero (s := (s.popEvent (tcpEndhost cfg) time).src) hhigh]
    exact htimes

/-- The next ack arrives. -/
theorem smooth_ack {a : DataAck} {rest : List DataAck} (h : Smooth s) (hacks : s.acks = a :: rest) :
    Smooth ((withAcks rest s).handOn (tcpEndhost cfg) (receivePacket cfg s.now a s.src)) := by
  obtain ⟨hackno, hheard, hlen, hrest⟩ := h.inLine.next_ack hacks
  have hheard' : (withAcks rest s).heard = s.heard + 1 :=
    hheard.symm
  have hflight : s.flight = a.ts :: (withAcks rest s).flight := by
    rw [flight, hacks]
    rfl
  have hpast : ∀ t ∈ (withAcks rest s).flight, t ≤ s.now := by
    intro t ht
    refine h.punctual.past t ?_
    rw [hflight]
    exact List.mem_cons_of_mem _ ht
  have hsends : ∀ (u : TcpSrc D) (n : Nat), u.sent = s.src.sent →
      (u.state ≠ .finish → u.lastAcked = a.ackno) → minRto ≤ u.rto →
      (u.state ≠ .finish → u.rtoTimeout ≠ 0 →
        ∃ t ∈ (withAcks rest s).flight.head?,
          t + minRto ≤ u.rtoTimeout) →
      u.state ≠ .fastRecov →
      receivePacket cfg s.now a s.src = sendSegments s.now s.src.sent.length n u →
      Smooth ((withAcks rest s).handOn (tcpEndhost cfg) (receivePacket cfg s.now a s.src)) := by
    intro u n hsent hlow hrto htimer hfast hsrc
    refine smooth_handOn (withAcks rest s) u.pending h.inLine
      ⟨rfl, rfl, rfl, rfl⟩ hlen ?_ hsent ?_ hsrc hpast hrto htimer hfast
    · rw [hheard']
      exact hrest
    · rw [hheard', ← hackno]
      exact hlow
  have hk : s.src.highestSent = s.src.sent.length * MSS_BYTES := h.inLine.highestSent
  by_cases hfin : s.src.state = .finish
  · -- a finished flow takes no ack
    have hsame : receivePacket cfg s.now a s.src = s.src := by rw [receivePacket, if_pos hfin]
    exact hsends s.src 0 rfl (fun h => absurd hfin h) h.punctual.rto (fun h => absurd hfin h)
      h.punctual.noRecovery (by rw [sendSegments_zero hk, hsame])
  · by_cases hgo : s.src.Completes s.now a.ackno
    · have hends : receivePacket cfg s.now a s.src = { s.src with state := .finish } := by
        rw [receivePacket, if_neg hfin, if_pos hgo]
      refine hsends { s.src with state := .finish } 0 rfl (fun h => absurd rfl h) h.punctual.rto
        (fun h => absurd rfl h) (fun hfast => by cases hfast) ?_
      rw [hends]
      exact (sendSegments_zero (s := { s.src with state := .finish }) hk).symm
    · -- it is new, since it acks the first segment that is not acked
      have hnew : s.src.lastAcked < a.ackno := by
        have hmss : 0 < MSS_BYTES := by decide
        rw [h.inLine.lastAcked hfin, hackno, Nat.succ_mul]
        exact Nat.lt_add_of_pos_right hmss
      have htakes : receivePacket cfg s.now a s.src =
          sendPackets s.now (expected cfg s.now a s.src) :=
        receivePacket_expected hfin h.punctual.noRecovery hgo hnew
      have hsource := @expected_source _ cfg s.now a s.src
      obtain ⟨hlong, htimer⟩ := @expected_timer _ cfg s.now a s.src h.punctual.rto
      obtain ⟨n, hn⟩ := @sendPackets_segments _ s.now s.src.sent.length
        (expected cfg s.now a s.src) (by rw [hsource]; exact hk)
      refine hsends _ n ?_ (fun _ => ?_) hlong (fun _ hruns => ?_)
        (expected_state h.punctual.noRecovery) (htakes.trans hn)
      · rw [hsource]
      · rw [hsource]
      · -- something is in flight, since not all is acked
        obtain ⟨hmore, hset⟩ := htimer.resolve_left hruns
        have hlt : s.heard + 1 < s.src.sent.length := by
          have hle := h.inLine.heard_lt (hflight ▸ List.mem_cons_self)
          rcases Nat.lt_or_ge (s.heard + 1) s.src.sent.length with hlt | hge
          · exact hlt
          · have hall : s.heard + 1 = s.src.sent.length := Nat.le_antisymm hle hge
            exact absurd (by rw [hackno, hk, hall]) hmore
        have hcons := h.inLine.flight_eq
        rw [hflight] at hcons
        have hne : (withAcks rest s).flight ≠ [] := by
          intro hnil
          have hcount := congrArg List.length hcons
          rw [hnil, List.length_map, List.length_drop, List.length_singleton] at hcount
          omega
        obtain ⟨t, ht⟩ := List.exists_mem_of_ne_nil _ hne
        have hhead := List.head?_eq_some_head hne
        refine ⟨_, hhead, le_trans (Nat.add_le_add_right (hpast _ ?_) _) hset⟩
        exact List.mem_of_mem_head? hhead

theorem smooth_step {R : Nat} (hR : R < minRto) {t : Flow (TcpSrc D) TcpSink} {a : Act}
    (h : Smooth s) (hprompt : s.Prompt R a)
    (hstep : (system (tcpEndhost cfg)).step s a = some t) : Smooth t := by
  cases promptStep hprompt hstep with
  | event hmin hnow hlate hnext => exact smooth_event h hR hnow hlate hnext
  | deleted hnow =>
    have hin := h.inLine
    refine ⟨⟨hin.numbered, hin.highestSent, hin.line, hin.sink, hin.answered, hin.acks,
      hin.lastAcked⟩, h.punctual.mono hnow rfl rfl rfl rfl⟩
  | advance hnow =>
    have hin := h.inLine
    refine ⟨⟨hin.numbered, hin.highestSent, hin.line, hin.sink, hin.answered, hin.acks,
      hin.lastAcked⟩, h.punctual.mono hnow rfl rfl rfl rfl⟩
  | data hdata =>
    refine ⟨h.inLine.delivers hdata, h.punctual.mono le_rfl ?_ rfl rfl rfl⟩
    -- the ack takes the place of its segment
    rw [flight, flight, hdata, h.inLine.next_data hdata, List.map_append, List.append_assoc]
    rfl
  | ack hacks => exact smooth_ack h hacks
  | mark hp =>
    refine ⟨h.inLine.marks hp, h.punctual.mono le_rfl ?_ rfl rfl rfl⟩
    have hsame := congrArg (List.map DataPacket.ts) ((h.inLine.marks hp).line.trans
      h.inLine.line.symm)
    rw [List.map_map, List.map_map, List.map_append, List.map_append] at hsame
    exact congrArg (s.acks.map DataAck.ts ++ ·) (List.append_cancel_left hsame)

theorem smooth_init (flowsize duration startTime endtime : Nat) :
    (init (tcpEndhost cfg) flowsize duration startTime endtime).Smooth :=
  ⟨inLine_init flowsize duration startTime endtime,
    punctual_init flowsize duration startTime endtime⟩

/-- In every prompt run, whatever the network marks. -/
theorem prompt_smooth (cfg : TcpConfig D) {R : Nat} (hR : R < minRto)
    (flowsize duration startTime endtime : Nat) {as : List Act}
    (hprompt : (system (tcpEndhost cfg)).Along (Prompt R)
      (init (tcpEndhost cfg) flowsize duration startTime endtime) as) :
    (system (tcpEndhost cfg)).Always Smooth
        (init (tcpEndhost cfg) flowsize duration startTime endtime) as ∧
      (system (tcpEndhost cfg)).Along (fun s a => ¬ s.TimesOut a)
        (init (tcpEndhost cfg) flowsize duration startTime endtime) as := by
  have hinit : (init (tcpEndhost cfg) flowsize duration startTime endtime).Smooth :=
    smooth_init flowsize duration startTime endtime
  constructor
  · exact Lts.always_of_along (fun s a t h hp hstep => smooth_step hR h hp hstep) (fun _ h => h)
      hinit hprompt
  · refine Lts.along_of_along (fun s a t h hp hstep => ⟨smooth_step hR h hp hstep, ?_⟩) hinit
      hprompt
    intro hout
    cases a with
    | event =>
      obtain ⟨time, hmin, -, hfin, htimer⟩ := hout
      exact h.punctual.not_expired hR (hp time hmin) hfin htimer
    | _ => exact hout

/-- A flow of four segments: two are sent, and the acks of these bring the others. -/
def fourSegments : List Act :=
  [.event, .advance 50000000, .deliverData 0, .deliverData 0, .advance 100000000, .deliverAck 0,
    .deliverAck 0, .markEcn 1, .advance 150000000, .deliverData 0, .deliverData 0, .event,
    .advance 220000000, .deliverAck 0, .deliverAck 0]

theorem prompt_fourSegments :
    (system (tcpEndhost plainTcp)).Along (Prompt 150000000)
      (init (tcpEndhost plainTcp) 6000 0 0 0) fourSegments := by
  decide +kernel

/-- The flow of four segments is finished, and has looked at its timer on the way. -/
theorem prompt_smooth_fourSegments :
    ((system (tcpEndhost plainTcp)).run (init (tcpEndhost plainTcp) 6000 0 0 0)
        fourSegments).any (fun s => s.src.state = .finish) ∧
      (system (tcpEndhost plainTcp)).Always Smooth (init (tcpEndhost plainTcp) 6000 0 0 0)
          fourSegments ∧
        (system (tcpEndhost plainTcp)).Along (fun s a => ¬ s.TimesOut a)
          (init (tcpEndhost plainTcp) 6000 0 0 0) fourSegments :=
  ⟨by decide +kernel, prompt_smooth plainTcp (by decide) 6000 0 0 0 prompt_fourSegments⟩

end Flow
end Htsim
end DatacenterNetworking
