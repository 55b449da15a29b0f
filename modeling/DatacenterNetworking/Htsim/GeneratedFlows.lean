/-
  DatacenterNetworking.Htsim.GeneratedFlows

  A generator and the flows it has created, over one event list.  Each flow is a
  `Flow`, over a network that loses, delays and reorders its packets.

  The two meet where an ack ends a flow: its handler calls `finishFlow`, which may
  create another, and the one of `TcpSrc` then calls `addFct`.  The handlers of
  `PacketPairSrc` and `TimelySrc` do not.
-/

import DatacenterNetworking.Htsim.FlowGenerator
import DatacenterNetworking.Htsim.PacketPair
import DatacenterNetworking.Htsim.Tcp
import DatacenterNetworking.Htsim.Timely

namespace DatacenterNetworking
namespace Htsim

/-! ## The protocols -/

/-- What `_ehproto` decides: the two ends, the size that the constructor of the source takes,
    and whether its handler counts a flow that has ended. -/
structure Protocol (S K : Type) where
  endhost : Endhost S K
  flowsize : Nat → Nat
  addsFct : Bool
  /-- A flow that has ended stays so, and an ack that completes it ends it. -/
  receive_ends (now : Nat) (a : DataAck) (s : S)
    (h : endhost.finished s = true ∨ (endhost.source s).Completes now a.ackno) :
    endhost.finished (endhost.receivePacket now a s) = true
  event_ends (now nPackets : Nat) (s t : S) (h : endhost.doNextEvent now nPackets s = some t)
    (hfin : endhost.finished s = true) : endhost.finished t = true

/-- `TCP`, `DCTCP` and the two with deadlines; the size is a `uint32_t`. -/
def tcpProtocol {D : Type} (cfg : TcpConfig D) : Protocol (TcpSrc D) TcpSink where
  endhost := tcpEndhost cfg
  flowsize := u32
  addsFct := true
  receive_ends := fun _ _ _ h =>
    decide_eq_true (TcpSrc.receivePacket_ends (h.imp_left of_decide_eq_true))
  event_ends := fun _ _ _ _ h hfin =>
    decide_eq_true (TcpSrc.doNextEvent_ends (of_decide_eq_true hfin) h)

/-- `PKTPAIR`. -/
def packetPairProtocol {D : Type} (float : PairFloat D) :
    Protocol (PacketPairSrc D) PacketPairSink where
  endhost := packetPairEndhost float
  flowsize := id
  addsFct := false
  receive_ends := fun _ _ _ h =>
    decide_eq_true (PacketPairSrc.receivePacket_ends (h.imp_left of_decide_eq_true))
  event_ends := fun _ _ _ _ h hfin =>
    decide_eq_true (PacketPairSrc.doNextEvent_ends (of_decide_eq_true hfin) h)

/-- `TIMELY`. -/
def timelyProtocol {D : Type} (float : TimelyFloat D) :
    Protocol (TimelySrc D) TimelySink where
  endhost := timelyEndhost float
  flowsize := id
  addsFct := false
  receive_ends := fun _ _ _ h =>
    decide_eq_true (TimelySrc.receivePacket_ends (h.imp_left of_decide_eq_true))
  event_ends := fun _ _ _ _ h hfin =>
    decide_eq_true (TimelySrc.doNextEvent_ends (of_decide_eq_true hfin) h)

namespace Flow

variable {S K : Type}

/-- The ack that arrives ends the flow. -/
def endsFlow (E : Endhost S K) (f : Flow S K) : Act → Bool
  | .deliverAck i =>
      match f.acks[i]? with
      | some p => !E.finished f.src && decide ((E.source f.src).Completes f.now p.ackno)
      | none => false
  | _ => false

theorem open_of_endsFlow {E : Endhost S K} {f : Flow S K} {a : Act}
    (h : f.endsFlow E a = true) : E.finished f.src = false := by
  cases a with
  | deliverAck i =>
    simp only [endsFlow] at h
    split at h
    · exact Bool.not_eq_true' _ ▸ (Bool.and_eq_true_iff.mp h).1
    · cases h
  | _ => cases h

/-- A flow that is open after a step was open before it, and the step has not ended it. -/
theorem open_of_step {P : Protocol S K} {f f' : Flow S K} {a : Act}
    (hstep : step P.endhost f a = some f') (hopen : P.endhost.finished f'.src = false) :
    P.endhost.finished f.src = false ∧ f.endsFlow P.endhost a = false := by
  have hback : ∀ {s : S}, (P.endhost.finished s = true → P.endhost.finished f'.src = true) →
      P.endhost.finished s = false := by
    intro s hs
    cases hfin : P.endhost.finished s with
    | false => rfl
    | true => exact absurd (hopen.symm.trans (hs hfin)) Bool.false_ne_true
  have hpop : ∀ time, P.endhost.finished (f.popEvent P.endhost time).src =
      P.endhost.finished f.src := fun time => P.endhost.finished_setSource _ _
  cases stepped hstep with
  | event hmin hnow hnext =>
    refine ⟨?_, rfl⟩
    rw [← hpop]
    exact hback (P.event_ends _ _ _ _ hnext)
  | deleted =>
    refine ⟨?_, rfl⟩
    rw [← hpop]
    exact hopen
  | @ack i p acks hp =>
    refine ⟨hback fun hfin => P.receive_ends _ _ _ (Or.inl hfin), ?_⟩
    -- an ack that completes the flow would have ended it
    have hgo : ¬ (P.endhost.source f.src).Completes f.now p.ackno := fun hends =>
      absurd (hopen.symm.trans (P.receive_ends _ _ _ (Or.inr hends))) Bool.false_ne_true
    simp only [endsFlow, hp, hgo, decide_false, Bool.and_false]
  | data => exact ⟨hopen, rfl⟩
  | network hother =>
    refine ⟨hopen, ?_⟩
    cases a with
    | deliverAck i => exact absurd rfl (hother i)
    | _ => rfl

end Flow

/-! ## Events of the generator -/

/-- The two events that a generator has pending. -/
inductive GeneratorEvent where
  | arrival
  | ending
  deriving DecidableEq, Repr

/-- An event is taken out of the event list. -/
def FlowGenerator.popEvent (time : Nat) (g : FlowGenerator) : GeneratorEvent → Option FlowGenerator
  | .arrival =>
      if time ∈ g.arrivals then some { g with arrivals := g.arrivals.erase time } else none
  | .ending => if time ∈ g.ends then some { g with ends := g.ends.erase time } else none

/-- The generator with its flows, each with the id of its source. -/
structure GeneratedFlows (S K : Type) where
  now : Nat
  gen : FlowGenerator
  flows : List (Nat × Flow S K)

namespace GeneratedFlows

/-- What may happen next: an event of the generator, or a step of a flow.  The draws are for the
    flow that is created, if one is. -/
inductive Act where
  | event (e : GeneratorEvent) (time : Nat) (d : FlowDraws)
  | flow (i : Nat) (a : Flow.Act) (d : FlowDraws)

/-- The draws of a step. -/
def Act.draws : Act → FlowDraws
  | .event _ _ d => d
  | .flow _ _ d => d

variable {S K : Type} (P : Protocol S K) (simEnd : Nat)

/-- Before the first event. -/
def start (g : FlowGenerator) : GeneratedFlows S K := ⟨0, g, []⟩

/-- No event of the generator is passed over. -/
def Due (s : GeneratedFlows S K) (time : Nat) : Prop :=
  s.now ≤ time ∧ ∀ w ∈ s.gen.arrivals ++ s.gen.ends, time ≤ w

instance (s : GeneratedFlows S K) (time : Nat) : Decidable (s.Due time) :=
  inferInstanceAs (Decidable (_ ∧ _))

/-- The source that `createFlow` has made, with its sink and its network. -/
def newFlow (now : Nat) (new : NewFlow) : Nat × Flow S K :=
  (new.id,
    { Flow.init P.endhost (P.flowsize new.flowSize) 0 new.startTime simEnd with now := now })

/-- The generator has become `r.1`, and a flow has been created if `r.2` is one. -/
def goOn (now : Nat) (flows : List (Nat × Flow S K)) (r : FlowGenerator × Option NewFlow) :
    GeneratedFlows S K where
  now := now
  gen := r.1
  flows := flows ++ (r.2.map (newFlow P simEnd now)).toList

/-- What the handler of an ack does when the ack ends the flow. -/
def endFlow (now id startTime : Nat) (d : FlowDraws) (g : FlowGenerator) :
    FlowGenerator × Option NewFlow :=
  let r := g.finishFlow now id d
  if P.addsFct then (r.1.addFct (((now - startTime : Nat) : Rat) / 10 ^ 6), r.2) else r

/-- The transition function. -/
def step (s : GeneratedFlows S K) : Act → Option (GeneratedFlows S K)
  | .event e time d =>
      if s.Due time then
        (s.gen.popEvent time e).bind fun g =>
          (g.doNextEvent simEnd time d).map (goOn P simEnd time s.flows)
      else none
  | .flow i a d =>
      s.flows[i]?.bind fun e =>
        (e.2.step P.endhost a).bind fun f =>
          if s.Due f.now then
            let flows := s.flows.set i (e.1, f)
            if e.2.endsFlow P.endhost a then
              let startTime := (P.endhost.source f.src).startTime
              some (goOn P simEnd f.now flows (endFlow P f.now e.1 startTime d s.gen))
            else some { s with now := f.now, flows := flows }
          else none

/-- A generator and its flows. -/
def system : Lts (GeneratedFlows S K) Act where
  step := step P simEnd

/-! ## What a step does -/

/-- The flows that are live when a step puts a new one among them; `none` for a step that
    creates no flow. -/
def creating (s : GeneratedFlows S K) : Act → Option (Finset Nat)
  | .event _ time _ => if time = s.gen.endTime then none else some s.gen.liveFlows
  | .flow i a _ =>
      s.flows[i]?.bind fun e =>
        if e.2.endsFlow P.endhost a ∧ e.1 ∈ s.gen.liveFlows ∧ s.gen.replaceFlow then
          some (s.gen.liveFlows.erase e.1)
        else none

/-- The step ends a flow. -/
def ends (s : GeneratedFlows S K) : Act → Bool
  | .event .. => false
  | .flow i a _ => s.flows[i]?.any fun e => e.2.endsFlow P.endhost a

section Steps

variable {P} in
theorem creating_flow {s : GeneratedFlows S K} {i : Nat} {e : Nat × Flow S K}
    (he : s.flows[i]? = some e) (a : Flow.Act) (d : FlowDraws) :
    s.creating P (.flow i a d) =
      if e.2.endsFlow P.endhost a ∧ e.1 ∈ s.gen.liveFlows ∧ s.gen.replaceFlow then
        some (s.gen.liveFlows.erase e.1)
      else none := by
  rw [creating, he, Option.bind_some]

variable {P} in
theorem ends_flow {s : GeneratedFlows S K} {i : Nat} {e : Nat × Flow S K}
    (he : s.flows[i]? = some e) (a : Flow.Act) (d : FlowDraws) :
    s.ends P (.flow i a d) = e.2.endsFlow P.endhost a := by
  rw [ends, he, Option.any_some]

/-- What a step is.  An event of the generator comes at its end time, or creates a flow; a step
    of a flow ends it, or does not. -/
inductive Stepped (s : GeneratedFlows S K) : Act → GeneratedFlows S K → Prop
  | elapsed {e : GeneratorEvent} {time : Nat} {d : FlowDraws} {g : FlowGenerator}
      (hpop : s.gen.popEvent time e = some g) (hover : time = s.gen.endTime) :
      Stepped s (.event e time d) { s with now := time, gen := g }
  | created {e : GeneratorEvent} {time : Nat} {d : FlowDraws} {g g' : FlowGenerator}
      {new : NewFlow} (hpop : s.gen.popEvent time e = some g) (hbefore : time ≠ s.gen.endTime)
      (hnew : FlowGenerator.Created d g g' new)
      (hcount : g'.concurrentFlows = u32 (s.gen.concurrentFlows + 1))
      (hnext : g'.arrivals = g.arrivals ∨
        (s.gen.replaceFlow = false ∨ g'.concurrentFlows < s.gen.maxFlows) ∧
          ∃ time, g'.arrivals = time :: g.arrivals) :
      Stepped s (.event e time d) ⟨time, g', s.flows ++ [newFlow P simEnd time new]⟩
  | moved {i : Nat} {a : Flow.Act} {d : FlowDraws} {e : Nat × Flow S K} {f : Flow S K}
      (he : s.flows[i]? = some e) (hf : e.2.step P.endhost a = some f)
      (hgo : e.2.endsFlow P.endhost a = false) :
      Stepped s (.flow i a d) { s with now := f.now, flows := s.flows.set i (e.1, f) }
  | ended {i : Nat} {a : Flow.Act} {d : FlowDraws} {e : Nat × Flow S K} {f : Flow S K}
      (he : s.flows[i]? = some e) (hf : e.2.step P.endhost a = some f)
      (hends : e.2.endsFlow P.endhost a = true) :
      Stepped s (.flow i a d)
        (goOn P simEnd f.now (s.flows.set i (e.1, f))
          (endFlow P f.now e.1 (P.endhost.source f.src).startTime d s.gen))

variable {P simEnd}

theorem popEvent_spec {time : Nat} {g g' : FlowGenerator} {e : GeneratorEvent}
    (h : g.popEvent time e = some g') :
    (time ∈ g.arrivals ∧ g' = { g with arrivals := g.arrivals.erase time }) ∨
      (time ∈ g.ends ∧ g' = { g with ends := g.ends.erase time }) := by
  cases e with
  | arrival =>
    simp only [FlowGenerator.popEvent] at h
    split_ifs at h with hmem
    cases h
    exact Or.inl ⟨hmem, rfl⟩
  | ending =>
    simp only [FlowGenerator.popEvent] at h
    split_ifs at h with hmem
    cases h
    exact Or.inr ⟨hmem, rfl⟩

/-- Only the event list changes when an event is taken out. -/
theorem popEvent_eq {time : Nat} {g g' : FlowGenerator} {e : GeneratorEvent}
    (h : g.popEvent time e = some g') :
    ∃ arrivals ends, g' = { g with arrivals := arrivals, ends := ends } := by
  obtain ⟨-, rfl⟩ | ⟨-, rfl⟩ := popEvent_spec h
  · exact ⟨_, g.ends, rfl⟩
  · exact ⟨g.arrivals, _, rfl⟩

/-- `addFct` is about completion times only. -/
theorem endFlow_eq (P : Protocol S K) (now id startTime : Nat) (d : FlowDraws) (g : FlowGenerator) :
    ∃ fctSum, endFlow P now id startTime d g =
      ({ (g.finishFlow now id d).1 with
          fctSum := fctSum
          nFlows :=
            if P.addsFct then ((g.finishFlow now id d).1.nFlows + 1) % 2 ^ 64
            else (g.finishFlow now id d).1.nFlows },
        (g.finishFlow now id d).2) := by
  unfold endFlow
  split_ifs with hadds
  · exact ⟨_, rfl⟩
  · exact ⟨_, rfl⟩

theorem stepped {s t : GeneratedFlows S K} {a : Act} (hstep : step P simEnd s a = some t) :
    Stepped P simEnd s a t := by
  cases a with
  | event e time d =>
    simp only [step] at hstep
    split_ifs at hstep
    obtain ⟨g, hpop, hstep⟩ := Option.bind_eq_some_iff.mp hstep
    obtain ⟨⟨g', new⟩, hnext, rfl⟩ := Option.map_eq_some_iff.mp hstep
    have hend : g.endTime = s.gen.endTime := by
      obtain ⟨_, _, rfl⟩ := popEvent_eq hpop
      rfl
    -- at the end time the generator stops; any other event is an arrival
    by_cases hover : time = s.gen.endTime
    · rw [FlowGenerator.doNextEvent, if_pos (hover.trans hend.symm)] at hnext
      cases hnext
      have hflows : s.flows ++ [] = s.flows := List.append_nil _
      simp only [goOn, Option.map_none, Option.toList_none, hflows]
      exact .elapsed hpop hover
    · obtain ⟨flow, rfl, hnew, hcc, harr⟩ :=
        FlowGenerator.doNextEvent_spec (fun h => hover (h.trans hend)) hnext
      refine .created hpop hover hnew ?_ ?_
      · obtain ⟨_, _, rfl⟩ := popEvent_eq hpop
        exact hcc
      · obtain ⟨_, _, rfl⟩ := popEvent_eq hpop
        exact harr
  | flow i a d =>
    simp only [step] at hstep
    obtain ⟨e, he, hstep⟩ := Option.bind_eq_some_iff.mp hstep
    obtain ⟨f, hf, hstep⟩ := Option.bind_eq_some_iff.mp hstep
    -- a step of a flow that is live: the last one of the flow, or not
    split_ifs at hstep with hdue hends
    · cases hstep
      exact .ended he hf hends
    · cases hstep
      exact .moved he hf (Bool.not_eq_true _ ▸ hends)

end Steps

/-! ## How a generator is set up -/

/-- The generator after its constructor and setters; `limited` once `setTimeLimits` was called,
    as it is once. -/
inductive Configured (simEnd : Nat) : Bool → FlowGenerator → Prop
  | new (flowRate : Nat) (avgFlowSize : UInt32) (dist : FlowDist) :
      Configured simEnd false (.new flowRate avgFlowSize dist)
  | setReplaceFlow {limited : Bool} {g : FlowGenerator} (h : Configured simEnd limited g)
      (maxFlows : UInt32) (offRatio : Rat) :
      Configured simEnd limited (g.setReplaceFlow maxFlows.toNat offRatio)
  | setTrace {limited : Bool} {g : FlowGenerator} (h : Configured simEnd limited g)
      (flowTrace : List (Nat × Nat)) : Configured simEnd limited (g.setTrace flowTrace)
  | setTimeLimits {g g' : FlowGenerator} (h : Configured simEnd false g) {startTime endTime : Nat}
      (hlimits : g.setTimeLimits simEnd startTime endTime = some g') : Configured simEnd true g'

/-- Nothing has been created, and what is pending are one arrival and one end at most. -/
structure Fresh (limited : Bool) (g : FlowGenerator) : Prop where
  liveFlows : g.liveFlows = ∅
  flowsGenerated : g.flowsGenerated = 0
  nFlows : g.nFlows = 0
  concurrentFlows : g.concurrentFlows = 0
  maxFlows : g.maxFlows < 2 ^ 32
  arrivals : g.arrivals.length ≤ 1
  ends : ∀ time ∈ g.ends, time = g.endTime
  unlimited : limited = false → g.arrivals = [] ∧ g.ends = []

theorem Configured.fresh {limited : Bool} {g : FlowGenerator} (h : Configured simEnd limited g) :
    Fresh limited g := by
  -- over the calls of the set-up, which leave the books empty
  induction h with
  | new flowRate avgFlowSize dist =>
    exact ⟨rfl, rfl, rfl, rfl, Nat.two_pow_pos 32, Nat.zero_le 1, nofun, fun _ => ⟨rfl, rfl⟩⟩
  | setReplaceFlow _ maxFlows offRatio ih =>
    exact ⟨ih.liveFlows, ih.flowsGenerated, ih.nFlows, ih.concurrentFlows, maxFlows.toNat_lt,
      ih.arrivals, ih.ends, ih.unlimited⟩
  | setTrace _ flowTrace ih =>
    exact ⟨ih.liveFlows, ih.flowsGenerated, ih.nFlows, ih.concurrentFlows, ih.maxFlows,
      ih.arrivals, ih.ends, ih.unlimited⟩
  | @setTimeLimits g g' _ startTime endTime hlimits ih =>
    obtain ⟨harr, hends⟩ := ih.unlimited rfl
    obtain ⟨first, rfl⟩ : ∃ first, g' =
        { g with
          endTime := endTime
          arrivals := FlowGenerator.schedule simEnd first g.arrivals
          ends := FlowGenerator.schedule simEnd endTime g.ends } := by
      simp only [FlowGenerator.setTimeLimits] at hlimits
      split_ifs at hlimits
      · obtain ⟨flow, -, rfl⟩ := Option.map_eq_some_iff.mp hlimits
        exact ⟨flow.1, rfl⟩
      · cases hlimits
        exact ⟨startTime, rfl⟩
    refine ⟨ih.liveFlows, ih.flowsGenerated, ih.nFlows, ih.concurrentFlows, ih.maxFlows, ?_,
      fun time htime => ?_, nofun⟩
    · -- the arrival is the only one
      simp only [harr]
      rcases FlowGenerator.schedule_cases simEnd first [] with heq | heq
      · rw [heq]
        exact Nat.zero_le 1
      · rw [heq]
        exact le_rfl
    · simp only [hends] at htime
      rcases FlowGenerator.schedule_cases simEnd endTime [] with heq | heq
      · rw [heq] at htime
        cases htime
      · rw [heq] at htime
        exact List.mem_singleton.mp htime

/-- A generator of flows of 1000 bytes, two at a time, until 1 ms. -/
def twoFlows : FlowGenerator :=
  (FlowGenerator.new 1000000000 1000 .UNIFORM).setReplaceFlow (2 : UInt32).toNat 0

def twoFlowsPending : FlowGenerator :=
  { twoFlows with endTime := 1000000000, arrivals := [0], ends := [1000000000] }

theorem configured_twoFlows : Configured 0 true twoFlowsPending := by
  have hlimits : twoFlows.setTimeLimits 0 0 1000000000 = some twoFlowsPending := rfl
  exact .setTimeLimits (.setReplaceFlow (.new _ _ _) 2 0) hlimits

/-- The draws of a flow before which `objects` other objects were made; the next one arrives after
    20 us. -/
def drawsAfter (objects : Nat) : FlowDraws := ⟨1000, 20000000, 0, 0, objects⟩

/-- A flow arrives, is sent and acked in 0.9 us, and is replaced; another one arrives. -/
def replacedRun : List Act :=
  [.event .arrival 0 (drawsAfter 0), .flow 0 .event (drawsAfter 0),
    .flow 0 (.advance 800000) (drawsAfter 0), .flow 0 (.deliverData 0) (drawsAfter 0),
    .flow 0 (.advance 900000) (drawsAfter 0), .flow 0 (.deliverAck 0) (drawsAfter 0),
    .event .arrival 20000000 (drawsAfter 0)]

end GeneratedFlows

end Htsim
end DatacenterNetworking
