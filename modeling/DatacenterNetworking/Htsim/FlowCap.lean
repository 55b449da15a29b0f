/-
  DatacenterNetworking.Htsim.FlowCap

  The cap on the number of flows (`setReplaceFlow`).  `_concurrentFlows` counts the
  arrivals and nothing lowers it; a flow that ends is replaced in the handler of
  its ack.  So there are as many live flows as there were arrivals, provided that
  no flow gets the id of one that is live: ids are 32-bit and come round.

    * `capped_of_reachable` — in every run, `_concurrentFlows` is within the cap, and
      bounds the number of live flows;
    * `withinCap_iff` — the two are equal exactly as long as every new id is free.
-/

import DatacenterNetworking.Htsim.GeneratedFlows
import DatacenterNetworking.Lib.Lts
import DatacenterNetworking.Lib.Registry

namespace DatacenterNetworking
namespace Htsim
namespace GeneratedFlows

/-- What holds of the generator in every run. -/
structure Capped (g : FlowGenerator) : Prop where
  replaceFlow : g.replaceFlow = true
  maxFlows : g.maxFlows < 2 ^ 32
  concurrentFlows : g.concurrentFlows ≤ g.maxFlows
  liveFlows : g.liveFlows.card ≤ g.concurrentFlows
  arrivals : g.arrivals.length ≤ 1
  full : g.concurrentFlows = g.maxFlows → g.arrivals = []
  ends : ∀ time ∈ g.ends, time = g.endTime

/-- There are `_concurrentFlows` live flows, `_maxFlows` at most; one arrival is pending at most,
    and none when there are `_maxFlows`. -/
structure WithinCap (g : FlowGenerator) : Prop where
  liveFlows : g.liveFlows.card = g.concurrentFlows
  concurrentFlows : g.concurrentFlows ≤ g.maxFlows
  arrivals : g.arrivals.length ≤ 1
  full : g.concurrentFlows = g.maxFlows → g.arrivals = []

theorem Capped.within_iff_card {g : FlowGenerator} (h : Capped g) :
    WithinCap g ↔ g.liveFlows.card = g.concurrentFlows :=
  ⟨fun hcap => hcap.liveFlows,
    fun hlive => ⟨hlive, h.concurrentFlows, h.arrivals, h.full⟩⟩

section Steps

variable {S K : Type} {P : Protocol S K} {simEnd : Nat}

/-- An event that is taken out leaves no arrival behind, if it was the arrival. -/
theorem Capped.popEvent {time : Nat} {g g' : FlowGenerator} {e : GeneratorEvent} (h : Capped g)
    (hpop : g.popEvent time e = some g') :
    Capped g' ∧ (time ≠ g.endTime → g'.arrivals = [] ∧ g.concurrentFlows < g.maxFlows) := by
  obtain ⟨hmem, rfl⟩ | ⟨hmem, rfl⟩ := popEvent_spec hpop
  · -- it was the only arrival, so that the cap has not been reached
    obtain ⟨first, hone⟩ : ∃ first, g.arrivals = [first] :=
      List.length_eq_one_iff.mp (Nat.le_antisymm h.arrivals (List.length_pos_of_mem hmem))
    have hnone : g.arrivals.erase time = [] := by
      rw [hone, List.mem_singleton] at hmem
      rw [hone, hmem, List.erase_cons_head]
    have hne : g.concurrentFlows ≠ g.maxFlows := by
      intro hfull
      rw [h.full hfull] at hone
      cases hone
    refine ⟨{ h with arrivals := ?_, full := fun _ => hnone }, fun _ => ⟨hnone, ?_⟩⟩
    · show (g.arrivals.erase time).length ≤ 1
      rw [hnone]
      exact Nat.zero_le 1
    · exact lt_of_le_of_ne h.concurrentFlows hne
  · refine ⟨{ h with ends := fun w hw => h.ends w (List.mem_of_mem_erase hw) }, fun hbefore => ?_⟩
    exact absurd (h.ends time hmem) hbefore

/-- The counters after an arrival. -/
theorem Capped.created {d : FlowDraws} {g g' : FlowGenerator} {new : NewFlow} (h : Capped g)
    (hnone : g.arrivals = []) (hroom : g.concurrentFlows < g.maxFlows)
    (hnew : FlowGenerator.Created d g g' new)
    (hcount : g'.concurrentFlows = u32 (g.concurrentFlows + 1))
    (hnext : g'.arrivals = g.arrivals ∨
      (g.replaceFlow = false ∨ g'.concurrentFlows < g.maxFlows) ∧
        ∃ time, g'.arrivals = time :: g.arrivals) :
    Capped g' ∧ g'.concurrentFlows = g.concurrentFlows + 1 := by
  -- the counter does not wrap below the cap
  have hsucc : g'.concurrentFlows = g.concurrentFlows + 1 := by
    rw [hcount, u32, Nat.mod_eq_of_lt (by have := h.maxFlows; omega)]
  have hle : g'.liveFlows.card ≤ g.liveFlows.card + 1 := by
    rw [hnew.liveFlows]
    exact Finset.card_insert_le _ _
  refine
    ⟨{ replaceFlow := hnew.replaceFlow.trans h.replaceFlow
       maxFlows := hnew.maxFlows ▸ h.maxFlows
       concurrentFlows := ?_
       liveFlows := ?_
       arrivals := ?_
       full := fun hfull => ?_
       ends := fun time htime => ?_ }, hsucc⟩
  · rw [hsucc, hnew.maxFlows]
    exact hroom
  · rw [hsucc]
    exact hle.trans (Nat.succ_le_succ h.liveFlows)
  · rcases hnext with hsame | ⟨-, time, hmore⟩
    · rw [hsame, hnone]
      exact Nat.zero_le 1
    · rw [hmore, hnone]
      exact le_rfl
  · -- the next arrival is scheduled below the cap only
    rcases hnext with hsame | ⟨hrep | hlt, -⟩
    · exact hsame.trans hnone
    · rw [h.replaceFlow] at hrep
      cases hrep
    · rw [hnew.maxFlows] at hfull
      exact absurd hfull hlt.ne
  · rw [hnew.ends] at htime
    exact (h.ends time htime).trans hnew.endTime.symm

/-- The counters after a flow took the place of a live one. -/
theorem Capped.replaced {id : Nat} {d : FlowDraws} {g g' : FlowGenerator} {new : NewFlow}
    (h : Capped g) (hlive : id ∈ g.liveFlows)
    (hnew : FlowGenerator.Created d { g with liveFlows := g.liveFlows.erase id } g' new)
    (hcount : g'.concurrentFlows = g.concurrentFlows) (harr : g'.arrivals = g.arrivals) :
    Capped g' := by
  have hmax : g'.maxFlows = g.maxFlows := hnew.maxFlows
  -- one key goes, and one comes at most
  have hcard : g'.liveFlows.card ≤ g.liveFlows.card := by
    rw [hnew.liveFlows, ← Finset.card_erase_add_one hlive]
    exact Finset.card_insert_le _ _
  refine
    { replaceFlow := hnew.replaceFlow.trans h.replaceFlow
      maxFlows := hmax ▸ h.maxFlows
      concurrentFlows := ?_
      liveFlows := ?_
      arrivals := harr ▸ h.arrivals
      full := fun hfull => ?_
      ends := fun time htime => ?_ }
  · rw [hcount, hmax]
    exact h.concurrentFlows
  · rw [hcount]
    exact hcard.trans h.liveFlows
  · rw [hcount, hmax] at hfull
    rw [harr]
    exact h.full hfull
  · rw [hnew.ends] at htime
    exact (h.ends time htime).trans hnew.endTime.symm

/-- A flow that ends is replaced. -/
theorem Capped.endFlow {g : FlowGenerator} (h : Capped g) (P : Protocol S K)
    (now id startTime : Nat) (d : FlowDraws) :
    let g' := (endFlow P now id startTime d g).1
    Capped g' ∧ g'.concurrentFlows = g.concurrentFlows ∧
      g'.liveFlows =
        if id ∈ g.liveFlows then insert (g.newId d) (g.liveFlows.erase id) else g.liveFlows := by
  obtain ⟨fctSum, heq⟩ := endFlow_eq P now id startTime d g
  rw [heq]
  by_cases hlive : id ∈ g.liveFlows
  · obtain ⟨hrep, -⟩ | ⟨-, g', new, hfin, hnew, hcount, harr⟩ :=
      FlowGenerator.finishFlow_spec now d hlive
    · rw [h.replaceFlow] at hrep
      cases hrep
    · -- what `addFct` changes is not part of the cap
      rw [hfin, if_pos hlive]
      exact ⟨{ h.replaced hlive hnew hcount harr with }, hcount, hnew.liveFlows⟩
  · rw [FlowGenerator.finishFlow_gone hlive, if_neg hlive]
    exact ⟨{ h with }, rfl, rfl⟩

/-- One step keeps the cap, and the live flows go on with the counter when a new id is free. -/
theorem capped_step {s t : GeneratedFlows S K} {a : Act} (h : Capped s.gen)
    (hstep : (system P simEnd).step s a = some t) :
    Capped t.gen ∧
      (s.gen.liveFlows.card = s.gen.concurrentFlows →
        (t.gen.liveFlows.card = t.gen.concurrentFlows ↔
          ∀ live ∈ s.creating P a, s.gen.newId a.draws ∉ live)) := by
  cases stepped hstep with
  | @elapsed e time d g hpop hover =>
    -- at the end time nothing is created
    have hnone : s.creating P (.event e time d) = none := if_pos hover
    refine ⟨(h.popEvent hpop).1, fun hcard => ?_⟩
    rw [hnone]
    refine iff_of_true ?_ nofun
    obtain ⟨-, rfl⟩ | ⟨-, rfl⟩ := popEvent_spec hpop <;> exact hcard
  | @created e time d g g' new hpop hbefore hnew hcount hnext =>
    have hsome : s.creating P (.event e time d) = some s.gen.liveFlows := if_neg hbefore
    obtain ⟨hcapped, hrest⟩ := h.popEvent hpop
    obtain ⟨hnone, hroom⟩ := hrest hbefore
    obtain ⟨_, _, rfl⟩ := popEvent_eq hpop
    obtain ⟨hcapped', hsucc⟩ := hcapped.created hnone hroom hnew hcount hnext
    -- the counter goes up by one, and the set does if the id is new to it
    refine ⟨hcapped', fun hcard => ?_⟩
    show g'.liveFlows.card = g'.concurrentFlows ↔ _
    rw [hsome, hsucc, hnew.liveFlows]
    show (insert _ s.gen.liveFlows).card = s.gen.concurrentFlows + 1 ↔ _
    rw [← hcard, card_insert_iff]
    exact ⟨fun hfree live hl => Option.some.inj hl ▸ hfree, fun hfree => hfree _ rfl⟩
  | @moved i a d e f he hf hgo =>
    have hnone : s.creating P (.flow i a d) = none := by
      rw [creating_flow he, if_neg fun hand => Bool.false_ne_true (hgo.symm.trans hand.1)]
    rw [hnone]
    exact ⟨h, fun hcard => iff_of_true hcard nofun⟩
  | @ended i a d e f he hf hends =>
    obtain ⟨hcapped, hcount, hlive⟩ := h.endFlow P f.now e.1 (P.endhost.source f.src).startTime d
    refine ⟨hcapped, fun hcard => ?_⟩
    show (endFlow P _ _ _ _ _).1.liveFlows.card = (endFlow P _ _ _ _ _).1.concurrentFlows ↔ _
    rw [hcount, hlive]
    by_cases hmem : e.1 ∈ s.gen.liveFlows
    · -- the counter stays, and the set is as large as before if the id is new to the rest of it
      have hsome : s.creating P (.flow i a d) = some (s.gen.liveFlows.erase e.1) := by
        rw [creating_flow he, if_pos ⟨hends, hmem, h.replaceFlow⟩]
      rw [if_pos hmem, hsome, ← hcard, ← Finset.card_erase_add_one hmem, card_insert_iff]
      exact ⟨fun hfree live hl => Option.some.inj hl ▸ hfree, fun hfree => hfree _ rfl⟩
    · -- the flow was not live, and is not replaced
      have hnone : s.creating P (.flow i a d) = none := by
        rw [creating_flow he, if_neg fun hand => hmem hand.2.1]
      rw [if_neg hmem, hnone]
      exact iff_of_true hcard nofun

theorem capped_start {limited : Bool} {g : FlowGenerator} (hconf : Configured simEnd limited g)
    (hrep : g.replaceFlow = true) (hmax : 1 ≤ g.maxFlows) : Capped g := by
  have h := hconf.fresh
  refine
    { replaceFlow := hrep
      maxFlows := h.maxFlows
      concurrentFlows := ?_
      liveFlows := ?_
      arrivals := h.arrivals
      full := fun hfull => ?_
      ends := h.ends }
  · rw [h.concurrentFlows]
    exact Nat.zero_le _
  · rw [h.liveFlows]
    exact Nat.zero_le _
  · rw [h.concurrentFlows] at hfull
    omega

end Steps

/-! ## Runs -/

section Runs

variable {S K : Type} (P : Protocol S K) {simEnd : Nat} {limited : Bool} {g : FlowGenerator}

/-- The flow that a step creates, if it creates one, gets an id that no live flow has. -/
def NewIdFree (s : GeneratedFlows S K) (a : Act) : Prop :=
  ∀ live ∈ s.creating P a, s.gen.newId a.draws ∉ live

instance (s : GeneratedFlows S K) (a : Act) : Decidable (s.NewIdFree P a) :=
  inferInstanceAs (Decidable (∀ live ∈ s.creating P a, s.gen.newId a.draws ∉ live))

/-- The cap on the counter needs no condition, and the counter bounds the live flows. -/
theorem capped_of_reachable (hconf : Configured simEnd limited g) (hrep : g.replaceFlow = true)
    (hmax : 1 ≤ g.maxFlows) {s : GeneratedFlows S K}
    (h : (system P simEnd).Reachable (start g) s) : Capped s.gen :=
  h.invariant (capped_start hconf hrep hmax) fun _ _ _ hs hstep => (capped_step hs hstep).1

/-- The flow cap: it is kept in a run exactly when every flow created in it gets a free id. -/
theorem withinCap_iff (hconf : Configured simEnd limited g) (hrep : g.replaceFlow = true)
    (hmax : 1 ≤ g.maxFlows) (acts : List Act) :
    (system P simEnd).Always (fun s => WithinCap s.gen) (start g) acts ↔
      (system P simEnd).Along (NewIdFree P) (start g) acts := by
  have hstart : Capped g := capped_start hconf hrep hmax
  have hfresh := hconf.fresh
  refine Lts.always_iff_along (J := fun s : GeneratedFlows S K => Capped s.gen)
    (fun s a t hs hstep => (capped_step hs hstep).1) (fun s a t hs hcap hstep => ?_) acts hstart ?_
  · obtain ⟨ht, hiff⟩ := capped_step hs hstep
    rw [ht.within_iff_card]
    exact hiff hcap.liveFlows
  · refine hstart.within_iff_card.mpr ?_
    rw [hfresh.liveFlows, hfresh.concurrentFlows]
    rfl

end Runs

theorem withinCap_replacedRun :
    (((system (tcpProtocol plainTcp) 0).run (start twoFlowsPending) replacedRun).map fun s =>
        s.gen.liveFlows.card) = some 2 ∧
      (system (tcpProtocol plainTcp) 0).Always (fun s => WithinCap s.gen) (start twoFlowsPending)
        replacedRun :=
  ⟨by decide +kernel,
    (withinCap_iff _ configured_twoFlows rfl (by decide) replacedRun).mpr (by decide +kernel)⟩

/-- The ids come round: 2^32 objects after a flow another one gets its id, and takes its place. -/
def idReusedRun : List Act :=
  [.event .arrival 0 (drawsAfter 0), .event .arrival 20000000 (drawsAfter (2 ^ 32 - 3))]

theorem idReused_cap :
    (((system (tcpProtocol plainTcp) 0).run (start twoFlowsPending) idReusedRun).map fun s =>
        (s.gen.liveFlows.card, s.gen.concurrentFlows)) = some (1, 2) ∧
      ¬ (system (tcpProtocol plainTcp) 0).Always (fun s => WithinCap s.gen)
        (start twoFlowsPending) idReusedRun := by
  have hrun : (((system (tcpProtocol plainTcp) 0).run (start twoFlowsPending) idReusedRun).map
      fun s => (s.gen.liveFlows.card, s.gen.concurrentFlows)) = some (1, 2) := by
    decide +kernel
  refine ⟨hrun, fun hall => ?_⟩
  obtain ⟨s, hs, hcounts⟩ := Option.map_eq_some_iff.mp hrun
  have hcap := (hall.last hs).liveFlows
  obtain ⟨hlive, hcount⟩ := Prod.mk.inj hcounts
  rw [hlive, hcount] at hcap
  exact absurd hcap (by decide)

end GeneratedFlows
end Htsim
end DatacenterNetworking
