/-
  DatacenterNetworking.Htsim.FlowGenerator

  The flow generator (`flow-generator.cpp`).  It creates a flow at every arrival
  event, and one more for each that finishes once `setReplaceFlow` was called.

  Times that are computed in floating point are exact; they are `none` where the
  value is not determined: after a division by zero, or out of the range of the
  integer they are converted to.  What the random functions return is an argument,
  `FlowDraws`.  The route of a flow, its endhost queue, its deadline and its names are
  left out; the id of the source, from the 32-bit `Logged::LASTIDNUM`, is not.
-/

import DatacenterNetworking.Htsim.DataPacket
import DatacenterNetworking.Htsim.Workloads
import Mathlib.Data.Finset.Card

namespace DatacenterNetworking
namespace Htsim

/-! ## Conversions -/

/-- A `double` as a `uint64_t`. -/
def toUint64 (x : Rat) : Option Nat :=
  if 0 ≤ x ∧ x.floor.toNat < 2 ^ 64 then some x.floor.toNat else none

/-- `llround`, within the range of what it returns. -/
def llround64 (x : Rat) : Option Nat :=
  if 0 ≤ x ∧ llround x < 2 ^ 63 then some (llround x) else none

/-- `timeFromSec`. -/
def timeFromSec (secs : Rat) : Option Nat := llround64 (secs * 10 ^ 12)

/-- A division of `double`s. -/
def divide (x y : Rat) : Option Rat := if y = 0 then none else some (x / y)

/-! ## The generator -/

/-- `FlowGenerator`.  `arrivals` and `ends` are its pending events: those that create a flow,
    and the one at `_endTime`.  `liveFlows` has the keys of `_liveFlows`, and `lastIdNum` is
    `Logged::LASTIDNUM` after the last flow was created. -/
structure FlowGenerator where
  flowRate : Nat
  workload : Workloads
  avgFlowArrivalTime : Option Nat
  avgOffTime : Option Nat
  replaceFlow : Bool
  maxFlows : Nat
  concurrentFlows : Nat
  useTrace : Bool
  flowTrace : List (Nat × Nat)
  endTime : Nat
  flowsGenerated : Nat
  liveFlows : Finset Nat
  fctSum : Rat
  nFlows : Nat
  lastIdNum : Nat
  arrivals : List Nat
  ends : List Nat

/-- What the random functions return for a flow, and how many objects with an id were made since
    the flow before it. -/
structure FlowDraws where
  /-- `_workload.generateFlowSize()` -/
  flowSize : Nat
  /-- `exponential(1.0/_avgFlowArrivalTime)` -/
  interval : Nat
  /-- `llround(exponential(1.0L / _avgOffTime))` -/
  sleepTime : Nat
  /-- `llround(drand() * timeFromUs(5))` -/
  jitter : Nat
  objects : Nat

/-- The source that `createFlow` makes. -/
structure NewFlow where
  id : Nat
  flowSize : Nat
  startTime : Nat
  deriving DecidableEq, Repr

namespace FlowGenerator

/-- The constructor. -/
def new (flowRate : Nat) (avgFlowSize : UInt32) (flowSizeDist : FlowDist) : FlowGenerator :=
  let workload := Workloads.new avgFlowSize flowSizeDist
  let flowsPerSec : Rat := flowRate / (workload.avgFlowSize.toNat * 8)
  { flowRate := flowRate
    workload := workload
    avgFlowArrivalTime := (divide (10 ^ 12) flowsPerSec).bind toUint64
    avgOffTime := some 0
    replaceFlow := false
    maxFlows := 0
    concurrentFlows := 0
    useTrace := false
    flowTrace := []
    endTime := 0
    flowsGenerated := 0
    liveFlows := ∅
    fctSum := 0
    nFlows := 0
    lastIdNum := 1
    arrivals := []
    ends := [] }

/-- `FlowGenerator::setReplaceFlow`; `_flowRate/_maxFlows` is a quotient of integers. -/
def setReplaceFlow (maxFlows : Nat) (offRatio : Rat) (g : FlowGenerator) : FlowGenerator :=
  let avgFCT :=
    if maxFlows = 0 then none
    else divide (g.workload.avgFlowSize.toNat * 8) ((g.flowRate / maxFlows : Nat) : Rat)
  { g with
    replaceFlow := true
    maxFlows := maxFlows
    avgFlowArrivalTime := (avgFCT.bind timeFromSec).map fun time => time / maxFlows
    avgOffTime :=
      (avgFCT.bind timeFromSec).bind fun time =>
        (divide (time * offRatio) (1 + offRatio)).bind llround64 }

/-- `FlowGenerator::setTrace`, of a trace that has been read. -/
def setTrace (flowTrace : List (Nat × Nat)) (g : FlowGenerator) : FlowGenerator :=
  { g with useTrace := true, flowTrace := flowTrace }

/-- `EventList::sourceIsPending`: what comes after the end of the simulation is not scheduled. -/
def schedule (simEnd time : Nat) (times : List Nat) : List Nat :=
  if simEnd = 0 ∨ time ≤ simEnd then time :: times else times

/-- `FlowGenerator::setTimeLimits`; a trace has a first flow. -/
def setTimeLimits (simEnd startTime endTime : Nat) (g : FlowGenerator) : Option FlowGenerator :=
  let register := fun first =>
    { g with
      endTime := endTime
      arrivals := schedule simEnd first g.arrivals
      ends := schedule simEnd endTime g.ends }
  if g.useTrace then g.flowTrace.head?.map fun flow => register flow.1
  else some (register startTime)

/-- The id of the next source. -/
def newId (d : FlowDraws) (g : FlowGenerator) : Nat := u32 (g.lastIdNum + d.objects)

/-- `FlowGenerator::createFlow`.  The `PacketFlow` of the source and the sink have ids too. -/
def createFlow (now flowSize startTime : Nat) (d : FlowDraws) (g : FlowGenerator) :
    FlowGenerator × NewFlow :=
  let id := newId d g
  ({ g with
      liveFlows := insert id g.liveFlows
      flowsGenerated := u32 (g.flowsGenerated + 1)
      lastIdNum := u32 (id + 3) },
    { id := id, flowSize := flowSize, startTime := now + startTime + d.jitter })

/-- `FlowGenerator::doNextEvent`.  At the end time nothing is created; a flow of the trace is
    taken from its front. -/
def doNextEvent (simEnd now : Nat) (d : FlowDraws) (g : FlowGenerator) :
    Option (FlowGenerator × Option NewFlow) :=
  if now = g.endTime then some (g, none)
  else
    -- `_flowTrace.front()` of an empty trace is undefined
    let taken : Option (Nat × List (Nat × Nat)) :=
      if g.useTrace then
        match g.flowTrace with
        | [] => none
        | flow :: rest => some (flow.2, rest)
      else some (d.flowSize, g.flowTrace)
    taken.map fun flow =>
      let created := createFlow now flow.1 0 d { g with flowTrace := flow.2 }
      let g₁ := { created.1 with concurrentFlows := u32 (created.1.concurrentFlows + 1) }
      -- the next arrival: of the trace while it lasts, else drawn
      let next : Option Nat :=
        if g₁.useTrace then g₁.flowTrace.head?.map fun flow => flow.1 else some (now + d.interval)
      let g₂ :=
        match next with
        | none => g₁
        | some time =>
            if g₁.replaceFlow = false ∨ g₁.concurrentFlows < g₁.maxFlows then
              { g₁ with arrivals := schedule simEnd time g₁.arrivals }
            else g₁
      (g₂, some created.2)

/-- `FlowGenerator::finishFlow`. -/
def finishFlow (now id : Nat) (d : FlowDraws) (g : FlowGenerator) :
    FlowGenerator × Option NewFlow :=
  if id ∉ g.liveFlows then (g, none)
  else
    let g₁ := { g with liveFlows := g.liveFlows.erase id }
    if g₁.replaceFlow then
      let sleepTime := if g₁.avgOffTime = some 0 then 0 else d.sleepTime
      let created := createFlow now d.flowSize sleepTime d g₁
      (created.1, some created.2)
    else (g₁, none)

/-- `FlowGenerator::addFct`. -/
def addFct (fctUs : Rat) (g : FlowGenerator) : FlowGenerator :=
  { g with fctSum := g.fctSum + fctUs, nFlows := (g.nFlows + 1) % 2 ^ 64 }

/-! ## What the handlers do -/

/-- A flow has been created: what that is to the counters. -/
structure Created (d : FlowDraws) (g g' : FlowGenerator) (flow : NewFlow) : Prop where
  id : flow.id = newId d g
  liveFlows : g'.liveFlows = insert (newId d g) g.liveFlows
  flowsGenerated : g'.flowsGenerated = u32 (g.flowsGenerated + 1)
  nFlows : g'.nFlows = g.nFlows
  replaceFlow : g'.replaceFlow = g.replaceFlow
  maxFlows : g'.maxFlows = g.maxFlows
  endTime : g'.endTime = g.endTime
  ends : g'.ends = g.ends

theorem schedule_cases (simEnd time : Nat) (times : List Nat) :
    schedule simEnd time times = times ∨ schedule simEnd time times = time :: times := by
  unfold schedule
  split_ifs
  · exact Or.inr rfl
  · exact Or.inl rfl

/-- What an event before the end time does. -/
theorem doNextEvent_spec {simEnd now : Nat} {d : FlowDraws} {g g' : FlowGenerator}
    {flow : Option NewFlow} (hbefore : now ≠ g.endTime)
    (h : doNextEvent simEnd now d g = some (g', flow)) :
    ∃ new, flow = some new ∧ Created d g g' new ∧
      g'.concurrentFlows = u32 (g.concurrentFlows + 1) ∧
      (g'.arrivals = g.arrivals ∨
        (g.replaceFlow = false ∨ g'.concurrentFlows < g.maxFlows) ∧
          ∃ time, g'.arrivals = time :: g.arrivals) := by
  simp only [doNextEvent, if_neg hbefore] at h
  obtain ⟨taken, -, heq⟩ := Option.map_eq_some_iff.mp h
  split at heq
  · -- the trace is at its end
    cases heq
    exact ⟨_, rfl, ⟨rfl, rfl, rfl, rfl, rfl, rfl, rfl, rfl⟩, rfl, Or.inl rfl⟩
  · rename_i time hnext
    -- one more arrival is scheduled, unless the cap has been reached
    split_ifs at heq with hroom
    · cases heq
      refine ⟨_, rfl, ⟨rfl, rfl, rfl, rfl, rfl, rfl, rfl, rfl⟩, rfl, ?_⟩
      rcases schedule_cases simEnd time g.arrivals with hsame | hmore
      · exact Or.inl hsame
      · exact Or.inr ⟨hroom, time, hmore⟩
    · cases heq
      exact ⟨_, rfl, ⟨rfl, rfl, rfl, rfl, rfl, rfl, rfl, rfl⟩, rfl, Or.inl rfl⟩

/-- What the end of a live flow does. -/
theorem finishFlow_spec (now : Nat) (d : FlowDraws) {id : Nat} {g : FlowGenerator}
    (hlive : id ∈ g.liveFlows) :
    let g₁ := { g with liveFlows := g.liveFlows.erase id }
    (g.replaceFlow = false ∧ finishFlow now id d g = (g₁, none)) ∨
      (g.replaceFlow = true ∧ ∃ g' new, finishFlow now id d g = (g', some new) ∧
        Created d g₁ g' new ∧ g'.concurrentFlows = g.concurrentFlows ∧
        g'.arrivals = g.arrivals) := by
  have hnot : ¬ id ∉ g.liveFlows := not_not.mpr hlive
  simp only [finishFlow, if_neg hnot]
  cases hrep : g.replaceFlow with
  | false => exact Or.inl ⟨rfl, by simp⟩
  | true =>
    refine Or.inr ⟨rfl, _, _, rfl, ⟨rfl, rfl, rfl, rfl, rfl, rfl, rfl, rfl⟩, rfl, rfl⟩

theorem finishFlow_gone {now id : Nat} {d : FlowDraws} {g : FlowGenerator} (h : id ∉ g.liveFlows) :
    finishFlow now id d g = (g, none) := if_pos h

end FlowGenerator

end Htsim
end DatacenterNetworking
