/-
  DatacenterNetworking.Htsim.TcpStep

  What a step does to the variables of a `TcpSrc`, for the invariants of its window,
  its timer and its recovery:

    * `Sends`     — all that `sendPackets` may change;
    * `increment` — what `inflateWindow` adds to the window;
    * `Processed` — the branches of `receivePacket` for an ack that is taken;
    * `NextEvent`, `Received`, `SrcStepped` — those of an event, of an ack, and of a step;
    * `Quiet`     — nothing is in flight before the source starts.
-/

import DatacenterNetworking.Htsim.Tcp

namespace DatacenterNetworking
namespace Htsim
namespace TcpSrc

variable {D : Type} {cfg : TcpConfig D} {now : Nat}

/-! ## Sending -/

/-- `t` has sent some segments more than `s`. -/
structure Sends (s t : TcpSrc D) : Prop where
  state : t.state = s.state
  ssthresh : t.ssthresh = s.ssthresh
  cwnd : t.cwnd = s.cwnd
  recoverSeq : t.recoverSeq = s.recoverSeq
  rto : t.rto = s.rto
  flowsize : t.flowsize = s.flowsize
  lastAcked : t.lastAcked = s.lastAcked
  le : s.highestSent ≤ t.highestSent
  dvd : MSS_BYTES ∣ t.highestSent - s.highestSent
  /-- Segments are sent within the window. -/
  within : t.highestSent = s.highestSent ∨ t.highestSent ≤ s.lastAcked + s.cwnd
  /-- The timer goes on running, and runs once something is sent. -/
  timer : 0 < s.rto → s.rtoTimeout ≠ 0 ∨ s.highestSent < t.highestSent → t.rtoTimeout ≠ 0

theorem Sends.refl (s : TcpSrc D) : Sends s s where
  state := rfl
  ssthresh := rfl
  cwnd := rfl
  recoverSeq := rfl
  rto := rfl
  flowsize := rfl
  lastAcked := rfl
  le := le_rfl
  dvd := by rw [Nat.sub_self]; exact Nat.dvd_zero _
  within := Or.inl rfl
  timer := fun _ h => h.resolve_right (Nat.lt_irrefl _)

theorem Sends.trans {s t u : TcpSrc D} (h : Sends s t) (h' : Sends t u) : Sends s u where
  state := h'.state.trans h.state
  ssthresh := h'.ssthresh.trans h.ssthresh
  cwnd := h'.cwnd.trans h.cwnd
  recoverSeq := h'.recoverSeq.trans h.recoverSeq
  rto := h'.rto.trans h.rto
  flowsize := h'.flowsize.trans h.flowsize
  lastAcked := h'.lastAcked.trans h.lastAcked
  le := h.le.trans h'.le
  dvd := by
    -- what was sent on both ways adds up, in whole segments
    have hsum : u.highestSent - s.highestSent =
        (u.highestSent - t.highestSent) + (t.highestSent - s.highestSent) := by
      have hst := h.le
      have htu := h'.le
      omega
    rw [hsum]
    exact Nat.dvd_add h'.dvd h.dvd
  within := by
    have hlast := h.lastAcked
    have hcwnd := h.cwnd
    rcases h'.within with heq | hle
    · rw [heq]
      exact h.within
    · right
      rwa [hlast, hcwnd] at hle
  timer := fun hrto hs => by
    have hrto' : 0 < t.rto := by rw [h.rto]; exact hrto
    by_cases hst : s.rtoTimeout ≠ 0 ∨ s.highestSent < t.highestSent
    · exact h'.timer hrto' (Or.inl (h.timer hrto hst))
    · -- nothing was sent on the way to `t`
      have hle := h.le
      exact h'.timer hrto' (Or.inr (by omega))

theorem armRto_timer (s : TcpSrc D) (hrto : 0 < s.rto) : (armRto now s).rtoTimeout ≠ 0 := by
  simp only [armRto]
  split_ifs with hzero
  · show now + s.rto ≠ 0
    omega
  · exact hzero

/-- The other variables do not depend on the timer. -/
theorem armRto_spec (s : TcpSrc D) :
    (armRto now s).state = s.state ∧ (armRto now s).ssthresh = s.ssthresh ∧
      (armRto now s).cwnd = s.cwnd ∧ (armRto now s).recoverSeq = s.recoverSeq ∧
      (armRto now s).rto = s.rto := by
  simp only [armRto]
  split_ifs
  · exact ⟨rfl, rfl, rfl, rfl, rfl⟩
  · exact ⟨rfl, rfl, rfl, rfl, rfl⟩

/-- A retransmission changes the history and the timer only, and the timer runs after it. -/
theorem retransmitPacket_eq (now : Nat) (s : TcpSrc D) :
    ∃ timer, retransmitPacket now s =
        { s with
          toDataSource := s.sendOn (DataPacket.newpkt (s.lastAcked + 1) now)
          rtoTimeout := timer } ∧
      (0 < s.rto → timer ≠ 0) := by
  simp only [retransmitPacket, armRto]
  split_ifs with hzero
  · refine ⟨_, rfl, fun hrto => ?_⟩
    show now + s.rto ≠ 0
    omega
  · exact ⟨_, rfl, fun _ => hzero⟩

theorem sends_sendNext {s : TcpSrc D} (hfits : s.highestSent + MSS_BYTES ≤ s.lastAcked + s.cwnd) :
    Sends s (sendNext now s) := by
  obtain ⟨hstate, hssthresh, hcwnd, hrecover, hrto⟩ := @armRto_spec _ now
    { s with
      toDataSource :=
        { s.sendOn (DataPacket.newpkt (s.highestSent + 1) now) with
          highestSent := s.highestSent + MSS_BYTES } }
  have hsource := @sendNext_source _ now s
  have hhigh : (sendNext now s).highestSent = s.highestSent + MSS_BYTES := by rw [hsource]
  exact
    { state := hstate
      ssthresh := hssthresh
      cwnd := hcwnd
      recoverSeq := hrecover
      rto := hrto
      flowsize := by rw [hsource]; rfl
      lastAcked := by rw [hsource]; rfl
      le := by rw [hhigh]; exact Nat.le_add_right _ _
      dvd := by rw [hhigh, Nat.add_sub_cancel_left]
      within := Or.inr (by rw [hhigh]; exact hfits)
      timer := fun hrto _ => armRto_timer _ hrto }

theorem sends_sendLoop (fuel : Nat) (s : TcpSrc D) : Sends s (sendLoop now fuel s) := by
  induction fuel generalizing s with
  | zero => exact Sends.refl s
  | succ fuel ih =>
    simp only [sendLoop]
    split_ifs with hfits
    · exact sends_sendNext hfits
    · exact (sends_sendNext hfits).trans (ih _)
    · exact Sends.refl s

theorem sends_sendPackets (s : TcpSrc D) : Sends s (sendPackets now s) := by
  simp only [sendPackets]
  split_ifs
  · exact Sends.refl s
  · exact sends_sendLoop _ s

/-- With room for a segment in the window, something unacked is in flight after
    `sendPackets`. -/
theorem lastAcked_lt_sendPackets {s : TcpSrc D} (hcwnd : MSS_BYTES ≤ s.cwnd)
    (hroom : 0 < s.flowsize → s.lastAcked < s.flowsize) :
    s.lastAcked < (sendPackets now s).highestSent := by
  have hsends : Sends s (sendPackets now s) := sends_sendPackets s
  have hflow := hsends.flowsize
  have hlast := hsends.lastAcked
  have hcwnd' := hsends.cwnd
  rcases @sendPackets_done _ now s with ⟨hpos, hall⟩ | hfull
  · rw [hflow] at hpos hall
    exact (hroom hpos).trans_le hall
  · omega

/-- With no room for a segment in the window, nothing is sent beyond what is acked. -/
theorem sendPackets_le_lastAcked {s : TcpSrc D} (hcwnd : s.cwnd < MSS_BYTES)
    (hle : s.highestSent ≤ s.lastAcked) (hhigh : MSS_BYTES ∣ s.highestSent)
    (hlow : MSS_BYTES ∣ s.lastAcked) : (sendPackets now s).highestSent ≤ s.lastAcked := by
  have hsends : Sends s (sendPackets now s) := sends_sendPackets s
  rcases hsends.within with heq | hwithin
  · rw [heq]
    exact hle
  · by_contra hlt
    have hgrid : MSS_BYTES ∣ (sendPackets now s).highestSent := by
      have hsum := Nat.dvd_add hsends.dvd hhigh
      rwa [Nat.sub_add_cancel hsends.le] at hsum
    -- two counts of whole segments less than one segment apart
    have hgap := add_mss_le_of_dvd hlow hgrid (Nat.lt_of_not_le hlt)
    omega

/-! ## The window -/

/-- `newly_acked` in `inflateWindow`, when `ackno` is taken. -/
def newlyAcked (ackno : Nat) (s : TcpSrc D) : Int :=
  (BitVec.ofNat 32 (sub64 (ackno + s.cwnd) s.highestSent)).toInt

/-- The increment of `inflateWindow`. -/
def increment (s : TcpSrc D) : Nat :=
  if newlyAcked s.lastAcked s < 0 then 0
  else
    let newlyAcked := (min (newlyAcked s.lastAcked s) MSS_BYTES).toNat
    if s.cwnd < s.ssthresh then min (s.ssthresh - s.cwnd) newlyAcked
    else max (newlyAcked * MSS_BYTES / s.cwnd) 1

theorem inflateWindow_eq {s : TcpSrc D} (hcwnd : s.cwnd < 2 ^ 32) :
    inflateWindow s = { s with cwnd := u32 (s.cwnd + increment s) } := by
  have hdef : inflateWindow s =
      if newlyAcked s.lastAcked s < 0 then s
      else
        let newlyAcked := (min (newlyAcked s.lastAcked s) MSS_BYTES).toNat
        { s with
          cwnd := u32 (s.cwnd +
            if s.cwnd < s.ssthresh then min (s.ssthresh - s.cwnd) newlyAcked
            else max (newlyAcked * MSS_BYTES / s.cwnd) 1) } := rfl
  rw [hdef]
  simp only [increment]
  split_ifs
  · rw [Nat.add_zero, u32, Nat.mod_eq_of_lt hcwnd]
  · rfl
  · rfl

/-- A window of a segment grows by a segment at most. -/
theorem increment_le {s : TcpSrc D} (hcwnd : MSS_BYTES ≤ s.cwnd) : increment s ≤ MSS_BYTES := by
  have hpos : 0 < MSS_BYTES := by decide
  simp only [increment]
  split_ifs with hneg hslow
  · exact Nat.zero_le _
  · omega
  · refine max_le ?_ hpos
    calc (min (newlyAcked s.lastAcked s) (MSS_BYTES : Int)).toNat * MSS_BYTES / s.cwnd
        ≤ MSS_BYTES * MSS_BYTES / s.cwnd :=
          Nat.div_le_div_right (Nat.mul_le_mul_right _ (by omega))
      _ ≤ MSS_BYTES * MSS_BYTES / MSS_BYTES := Nat.div_le_div_left hcwnd hpos
      _ = MSS_BYTES := Nat.mul_div_cancel _ hpos

/-- The window grows by one at most once it is large. -/
theorem increment_eq_one {s : TcpSrc D} (hslow : s.ssthresh ≤ s.cwnd)
    (hlarge : MSS_BYTES * MSS_BYTES < s.cwnd) (hpos : ¬ newlyAcked s.lastAcked s < 0) :
    increment s = 1 := by
  have hnot : ¬ s.cwnd < s.ssthresh := Nat.not_lt.mpr hslow
  simp only [increment]
  rw [if_neg hpos, if_neg hnot]
  have hzero : (min (newlyAcked s.lastAcked s) (MSS_BYTES : Int)).toNat * MSS_BYTES / s.cwnd
      = 0 := by
    apply Nat.div_eq_of_lt
    refine lt_of_le_of_lt (Nat.mul_le_mul_right _ ?_) hlarge
    omega
  rw [hzero]
  rfl

/-- The sum does not overflow if there is room for one more byte. -/
theorem add_increment_lt {s : TcpSrc D} (hcwnd : MSS_BYTES ≤ s.cwnd) (hlt : s.cwnd < 2 ^ 32)
    (hthresh : s.ssthresh < 2 ^ 32)
    (hroom : s.cwnd + 1 < 2 ^ 32 ∨ newlyAcked s.lastAcked s < 0) :
    s.cwnd + increment s < 2 ^ 32 := by
  have hle := increment_le hcwnd
  have hmss : MSS_BYTES = 1500 := rfl
  have hsquare : MSS_BYTES * MSS_BYTES = 2250000 := rfl
  by_cases hneg : newlyAcked s.lastAcked s < 0
  · have hzero : increment s = 0 := if_pos hneg
    omega
  · by_cases hslow : s.cwnd < s.ssthresh
    · -- slow start goes up to the threshold
      have hthr : increment s ≤ s.ssthresh - s.cwnd := by
        simp only [increment]
        rw [if_neg hneg, if_pos hslow]
        exact min_le_left _ _
      omega
    · by_cases hlarge : MSS_BYTES * MSS_BYTES < s.cwnd
      · have hone := increment_eq_one (Nat.not_lt.mp hslow) hlarge hneg
        omega
      · omega

/-- What fast recovery leaves of the window when it ends, in exact arithmetic. -/
theorem flightsize_add {s : TcpSrc D} {ackno : Nat} (hle : ackno ≤ s.highestSent)
    (hlt : s.highestSent - ackno + MSS_BYTES < 2 ^ 32) :
    u32 (u32 (sub64 s.highestSent ackno) + MSS_BYTES) = s.highestSent - ackno + MSS_BYTES := by
  have hsub : s.highestSent - ackno < 2 ^ 32 := by omega
  rw [sub64, if_pos hle, u32, u32, Nat.mod_eq_of_lt hsub, Nat.mod_eq_of_lt hlt]

theorem deflateWindow_eq {ackno : Nat} {s : TcpSrc D} (hlow : s.lastAcked ≤ ackno) :
    deflateWindow ackno s =
      { s with cwnd := u32 (s.cwnd - u32 (ackno - s.lastAcked) + MSS_BYTES) } := by
  have hsub : sub64 ackno s.lastAcked = ackno - s.lastAcked := if_pos hlow
  simp only [deflateWindow, hsub]
  split_ifs with hless
  · rfl
  · rw [Nat.sub_eq_zero_of_le (Nat.le_of_not_lt hless)]

/-- The branches of `receivePacket` for an ack that is taken: `s` is the source once its
    estimates are updated. -/
inductive Processed (now : Nat) (a : DataAck) (s : TcpSrc D) : TcpSrc D → Prop
  | expected (hnew : s.lastAcked < a.ackno) (hstate : s.state ≠ .fastRecov) :
      Processed now a s (sendPackets now (inflateWindow
        { restartTimer now a.ackno s with lastAcked := a.ackno, dupacks := 0 }))
  | recovered (hnew : s.lastAcked < a.ackno) (hstate : s.state = .fastRecov)
      (hfull : s.recoverSeq ≤ a.ackno) :
      Processed now a s (sendPackets now
        { restartTimer now a.ackno s with
          cwnd := min s.ssthresh (u32 (u32 (sub64 s.highestSent a.ackno) + MSS_BYTES))
          lastAcked := a.ackno
          dupacks := 0
          state := .congAvoid })
  | partly (hnew : s.lastAcked < a.ackno) (hstate : s.state = .fastRecov)
      (hpart : a.ackno < s.recoverSeq) :
      Processed now a s (sendPackets now (retransmitPacket now
        { deflateWindow a.ackno (restartTimer now a.ackno s) with lastAcked := a.ackno }))
  | inflate (hdup : ¬ s.lastAcked < a.ackno) (hstate : s.state = .fastRecov) :
      Processed now a s (sendPackets now { s with cwnd := u32 (s.cwnd + MSS_BYTES) })
  | duplicate (hdup : ¬ s.lastAcked < a.ackno) (hstate : s.state ≠ .fastRecov)
      (hcount : u16 (s.dupacks + 1) ≠ 3) :
      Processed now a s (sendPackets now { s with dupacks := u16 (s.dupacks + 1) })
  | unrecovered (hdup : ¬ s.lastAcked < a.ackno) (hstate : s.state ≠ .fastRecov)
      (hcount : u16 (s.dupacks + 1) = 3) (hpart : s.lastAcked < s.recoverSeq) :
      Processed now a s { s with dupacks := u16 (s.dupacks + 1) }
  | enter (hdup : ¬ s.lastAcked < a.ackno) (hstate : s.state ≠ .fastRecov)
      (hcount : u16 (s.dupacks + 1) = 3) (hfull : s.recoverSeq ≤ s.lastAcked) :
      Processed now a s (retransmitPacket now
        { s with
          dupacks := u16 (s.dupacks + 1)
          ssthresh := max (s.cwnd / 2) (MSS_BYTES * 2)
          cwnd := u32 (max (s.cwnd / 2) (MSS_BYTES * 2) + 3 * MSS_BYTES)
          state := .fastRecov
          recoverSeq := s.highestSent })

theorem processed (now : Nat) (a : DataAck) (s : TcpSrc D) :
    Processed now a s (processAck now a s) := by
  simp only [processAck, newAck, dupAck]
  split_ifs with hnew hstate hfull hstate hcount hpart
  · exact .expected hnew hstate
  · exact .recovered hnew (not_not.mp hstate) hfull
  · exact .partly hnew (not_not.mp hstate) (Nat.lt_of_not_le hfull)
  · exact .inflate hnew hstate
  · exact .duplicate hnew hstate hcount
  · exact .unrecovered hnew hstate (not_not.mp hcount) hpart
  · exact .enter hnew hstate (not_not.mp hcount) (Nat.le_of_not_lt hpart)

/-- The RTT estimate touches no other variable, and the timeout stays positive. -/
theorem updateRtt_eq (ts : Nat) (s : TcpSrc D) :
    ∃ rtt mdev rto, updateRtt now ts s = { s with rtt := rtt, mdev := mdev, rto := rto } ∧
      (0 < s.rto → 0 < rto) := by
  simp only [updateRtt]
  split_ifs
  all_goals first
    | exact ⟨_, _, _, rfl, fun _ => lt_max_of_lt_right (by decide)⟩
    | exact ⟨s.rtt, s.mdev, s.rto, rfl, id⟩

/-! ## Events and acks -/

/-- The periodic check changes what is pending only. -/
theorem scheduleCheck_eq (now : Nat) (s : TcpSrc D) :
    ∃ times, scheduleCheck now s =
      { s with toDataSource := { s.toDataSource with pending := times } } := by
  simp only [scheduleCheck, DataSource.sourceIsPending]
  split_ifs
  all_goals exact ⟨_, rfl⟩

/-- The branches of `doNextEvent` that leave the source alive. -/
inductive NextEvent (now : Nat) (s : TcpSrc D) : TcpSrc D → Prop
  | start (hstate : s.state = .idle) :
      NextEvent now s (scheduleCheck now (sendPackets now
        { s with state := .slowStart, cwnd := 2 * MSS_BYTES, dctcpCwnd := 2 * MSS_BYTES }))
  | expire (hidle : s.state ≠ .idle) (hfin : s.state ≠ .finish)
      (htimer : s.rtoTimeout ≠ 0 ∧ s.rtoTimeout ≤ now) :
      NextEvent now s (scheduleCheck now (timeout now s))
  | check (hidle : s.state ≠ .idle)
      (hwait : s.state = .finish ∨ ¬ (s.rtoTimeout ≠ 0 ∧ s.rtoTimeout ≤ now)) :
      NextEvent now s (scheduleCheck now s)

theorem nextEvent {nPackets : Nat} {s t : TcpSrc D} (h : doNextEvent now nPackets s = some t) :
    NextEvent now s t := by
  simp only [doNextEvent] at h
  split_ifs at h with hidle hfin hnone htimer
  · cases h
    exact .start hidle
  · cases h
    exact .check hidle (Or.inl hfin)
  · cases h
    exact .expire hidle hfin htimer
  · cases h
    exact .check hidle (Or.inr htimer)

/-- Only a finished flow deletes itself. -/
theorem finish_of_deleted {nPackets : Nat} {s : TcpSrc D} (h : doNextEvent now nPackets s = none) :
    s.state = .finish := by
  simp only [doNextEvent] at h
  split_ifs at h with hidle hfin
  exact hfin

/-- The branches of `receivePacket`. -/
inductive Received (cfg : TcpConfig D) (now : Nat) (a : DataAck) (s : TcpSrc D) :
    TcpSrc D → Prop
  | ignored : Received cfg now a s s
  | finishes (hfin : s.state ≠ .finish) (hends : s.Completes now a.ackno) :
      Received cfg now a s { s with state := .finish }
  | taken {t : TcpSrc D} (hfin : s.state ≠ .finish) (hgo : ¬ s.Completes now a.ackno)
      (hlow : s.lastAcked ≤ a.ackno)
      (ht : Processed now a (updateDctcp cfg a.ecnRev (updateRtt now a.ts s)) t) :
      Received cfg now a s t

theorem received (cfg : TcpConfig D) (now : Nat) (a : DataAck) (s : TcpSrc D) :
    Received cfg now a s (receivePacket cfg now a s) := by
  simp only [receivePacket]
  split_ifs with hfin hends hold
  · exact .ignored
  · exact .finishes hfin hends
  · exact .ignored
  · exact .taken hfin hends (Nat.le_of_not_lt hold) (processed now a _)

/-! ## A `TcpSrc` that has started -/

theorem NextEvent.started {s t : TcpSrc D} (h : NextEvent now s t) : t.state ≠ .idle := by
  have hcheck : ∀ u : TcpSrc D, u.state ≠ .idle → (scheduleCheck now u).state ≠ .idle :=
    fun _ hu => hu
  cases h with
  | start =>
    apply hcheck
    rw [sendPackets_state]
    intro hidle
    cases hidle
  | expire =>
    apply hcheck
    rw [timeout, retransmitPacket_state]
    intro hidle
    cases hidle
  | check hidle => exact hcheck s hidle

theorem Processed.started {a : DataAck} {s t : TcpSrc D} (h : Processed now a s t)
    (hs : s.state ≠ .idle) : t.state ≠ .idle := by
  cases h with
  | expected =>
    rw [sendPackets_state, inflateWindow_state]
    exact hs
  | recovered =>
    rw [sendPackets_state]
    exact nofun
  | partly =>
    rw [sendPackets_state, retransmitPacket_state]
    simp only [deflateWindow_state]
    exact hs
  | inflate =>
    rw [sendPackets_state]
    exact hs
  | duplicate =>
    rw [sendPackets_state]
    exact hs
  | unrecovered => exact hs
  | enter =>
    rw [retransmitPacket_state]
    exact nofun

theorem updateDctcp_started {ecnRev : Bool} {s : TcpSrc D} (hs : s.state ≠ .idle) :
    (updateDctcp cfg ecnRev s).state ≠ .idle := by
  have hmark : (countMark ecnRev s).state ≠ .idle := by
    simp only [countMark]
    split_ifs
    · intro hidle
      cases hidle
    · exact hs
    · exact hs
  simp only [updateDctcp]
  split_ifs
  · rw [updateAlpha_state]
    exact hmark
  · exact hmark
  · exact hs

theorem Received.started {a : DataAck} {s t : TcpSrc D} (h : Received cfg now a s t)
    (hs : s.state ≠ .idle) : t.state ≠ .idle := by
  cases h with
  | ignored => exact hs
  | finishes => exact nofun
  | taken _ _ _ ht =>
    apply ht.started
    apply updateDctcp_started
    rw [updateRtt_state]
    exact hs

end TcpSrc

namespace Flow

variable {D : Type} {cfg : TcpConfig D}

/-- The next event of the source is a retransmission timeout. -/
def TimesOut (s : Flow (TcpSrc D) TcpSink) : Act → Prop
  | .event =>
      ∃ time ∈ s.src.pending.min?, s.src.state ≠ .idle ∧ s.src.state ≠ .finish ∧
        s.src.rtoTimeout ≠ 0 ∧ s.src.rtoTimeout ≤ time
  | _ => False

instance (s : Flow (TcpSrc D) TcpSink) : ∀ a : Act, Decidable (s.TimesOut a)
  | .event => inferInstanceAs (Decidable (∃ time ∈ s.src.pending.min?, _))
  | .advance _ | .deliverData _ | .deliverAck _ | .dataFault _ | .ackFault _ | .markEcn _ =>
      inferInstanceAs (Decidable False)

/-- What a step makes of a `TcpSrc`. -/
inductive SrcStepped (cfg : TcpConfig D) (s : Flow (TcpSrc D) TcpSink) : Act → TcpSrc D → Prop
  | event {time : Nat} {src : TcpSrc D} (hmin : s.src.pending.min? = some time)
      (hnext : TcpSrc.NextEvent time (s.popEvent (tcpEndhost cfg) time).src src) :
      SrcStepped cfg s .event src
  | deleted {time : Nat} (hfin : s.src.state = .finish) :
      SrcStepped cfg s .event (s.popEvent (tcpEndhost cfg) time).src
  | ack {i : Nat} {p : DataAck} {src : TcpSrc D} (hp : s.acks[i]? = some p)
      (hrcvd : TcpSrc.Received cfg s.now p s.src src) : SrcStepped cfg s (.deliverAck i) src
  | same {a : Act} (hevent : a ≠ .event) : SrcStepped cfg s a s.src

theorem srcStepped {s t : Flow (TcpSrc D) TcpSink} {a : Act}
    (hstep : (system (tcpEndhost cfg)).step s a = some t) : SrcStepped cfg s a t.src := by
  -- the event is the one act in which the source may be deleted
  by_cases hevent : a = .event
  · subst hevent
    obtain ⟨time, hmin, h⟩ := Option.bind_eq_some_iff.mp (act_of_step hstep)
    split_ifs at h
    cases hnext : (tcpEndhost cfg).doNextEvent time (s.data.length + s.acks.length)
        (s.popEvent (tcpEndhost cfg) time).src with
    | none =>
      simp only [hnext] at h
      cases h
      have hfin : (s.popEvent (tcpEndhost cfg) time).src.state = .finish :=
        TcpSrc.finish_of_deleted hnext
      exact .deleted hfin
    | some src =>
      simp only [hnext] at h
      cases h
      exact .event hmin (TcpSrc.nextEvent hnext)
  · cases stepped hstep with
    | event => exact absurd rfl hevent
    | deleted => exact absurd rfl hevent
    | ack hp => exact .ack hp (TcpSrc.received cfg _ _ _)
    | data => exact .same hevent
    | network => exact .same hevent

/-- Before the source starts nothing is in flight. -/
def Quiet (s : Flow (TcpSrc D) TcpSink) : Prop := s.src.state = .idle → s.data = [] ∧ s.acks = []

/-- An ack that arrives finds a source that has started. -/
theorem Quiet.started {s : Flow (TcpSrc D) TcpSink} {i : Nat} {p : DataAck} (h : s.Quiet)
    (hp : s.acks[i]? = some p) : s.src.state ≠ .idle := by
  intro hidle
  rw [(h hidle).2] at hp
  cases hp

theorem quiet_init (flowsize duration startTime endtime : Nat) :
    (init (tcpEndhost cfg) flowsize duration startTime endtime).Quiet :=
  fun _ => ⟨rfl, rfl⟩

theorem quiet_step (s : Flow (TcpSrc D) TcpSink) (a : Act) (t : Flow (TcpSrc D) TcpSink)
    (h : s.Quiet) (hstep : (system (tcpEndhost cfg)).step s a = some t) : t.Quiet := by
  intro hidle
  cases stepped hstep with
  | event _ _ hnext => exact absurd hidle (TcpSrc.nextEvent hnext).started
  | deleted => exact h hidle
  | @ack i p _ hp =>
    exact absurd hidle ((TcpSrc.received cfg s.now p s.src).started (h.started hp))
  | data hp =>
    have hdata := (h hidle).1
    rw [hdata] at hp
    exact absurd hp List.not_mem_nil
  | network _ hdata hacks =>
    obtain ⟨hdata', hacks'⟩ := h hidle
    refine ⟨List.eq_nil_iff_forall_not_mem.mpr fun p hp => ?_,
      List.eq_nil_iff_forall_not_mem.mpr fun x hx => ?_⟩
    · obtain ⟨q, hq, -⟩ := hdata p hp
      rw [hdata'] at hq
      exact List.not_mem_nil hq
    · have hx' := hacks x hx
      rw [hacks'] at hx'
      exact List.not_mem_nil hx'

end Flow
end Htsim
end DatacenterNetworking
