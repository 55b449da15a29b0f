/-
  DatacenterNetworking.Htsim.FlowAccounting

  Is every flow that was generated live, or counted once among those whose
  completion times are averaged?  `createFlow` makes it live; the handler of the
  ack that ends it takes it out, in `finishFlow`, and counts it with `addFct`.
  Only the handler of `TcpSrc` does the latter.

  The open flows are registered in `_liveFlows` as long as every new id is free, so
  that a flow that ends is there to be taken out.
-/

import DatacenterNetworking.Htsim.GeneratedFlows
import DatacenterNetworking.Lib.Lts
import DatacenterNetworking.Lib.Registry

namespace DatacenterNetworking
namespace Htsim
namespace GeneratedFlows

/-- Every flow generated is live or counted. -/
def Accounted (g : FlowGenerator) : Prop := g.flowsGenerated = g.liveFlows.card + g.nFlows

instance (g : FlowGenerator) : Decidable (Accounted g) := inferInstanceAs (Decidable (_ = _))

section Counters

variable {flowsGenerated nFlows id : Nat} {live : Finset Nat}

/-- The counter goes on with the live flows if the new id is free, and does not wrap. -/
theorem u32_succ_iff (h : flowsGenerated = live.card + nFlows) (hlt : flowsGenerated < 2 ^ 32) :
    u32 (flowsGenerated + 1) = (insert id live).card + nFlows ↔
      id ∉ live ∧ flowsGenerated + 1 < 2 ^ 32 := by
  have hle := Finset.card_le_card (Finset.subset_insert id live)
  by_cases hfits : flowsGenerated + 1 < 2 ^ 32
  · rw [u32, Nat.mod_eq_of_lt hfits, ← card_insert_iff]
    omega
  · -- it has wrapped to zero
    have hzero : flowsGenerated + 1 = 2 ^ 32 := by omega
    rw [u32, hzero, Nat.mod_self]
    omega

/-- A flow that was taken out and not counted is missing, whatever takes its place. -/
theorem u32_succ_ne (h : flowsGenerated = live.card + 1 + nFlows)
    (hlt : flowsGenerated < 2 ^ 32) :
    u32 (flowsGenerated + 1) ≠ (insert id live).card + nFlows := by
  have hge := Finset.card_le_card (Finset.subset_insert id live)
  have hle := Finset.card_insert_le id live
  by_cases hfits : flowsGenerated + 1 < 2 ^ 32
  · rw [u32, Nat.mod_eq_of_lt hfits]
    omega
  · have hzero : flowsGenerated + 1 = 2 ^ 32 := by omega
    rw [u32, hzero, Nat.mod_self]
    omega

end Counters

section Steps

variable {S K : Type} (P : Protocol S K) {simEnd : Nat}

/-- The source of the flow has not finished. -/
def IsOpen (f : Flow S K) : Prop := P.endhost.finished f.src = false

/-- The open flows are live, and the counters are right. -/
structure Tracked (s : GeneratedFlows S K) : Prop where
  accounted : Accounted s.gen
  fits : s.gen.flowsGenerated < 2 ^ 32
  registered : Registered (IsOpen P) s.flows s.gen.liveFlows

/-- A flow that a step creates gets a free id and a number below 2^32. -/
def Numbered (s : GeneratedFlows S K) (a : Act) : Prop :=
  ∀ live ∈ s.creating P a,
    s.gen.newId a.draws ∉ live ∧ s.gen.flowsGenerated + 1 < 2 ^ 32

instance (s : GeneratedFlows S K) (a : Act) : Decidable (s.Numbered P a) :=
  inferInstanceAs (Decidable (∀ live ∈ s.creating P a, _ ∧ _))

/-- A flow that a step creates is numbered, and one that it ends is counted by the handler. -/
def CountedOnce (s : GeneratedFlows S K) (a : Act) : Prop :=
  s.Numbered P a ∧ (s.ends P a = true → P.addsFct = true)

variable {P}

/-- A flow is created among the live ones. -/
theorem accounted_created {d : FlowDraws} {g g' : FlowGenerator} {new : NewFlow}
    (hnew : FlowGenerator.Created d g g' new) (h : Accounted g) (hlt : g.flowsGenerated < 2 ^ 32) :
    Accounted g' ↔ g.newId d ∉ g.liveFlows ∧ g.flowsGenerated + 1 < 2 ^ 32 := by
  rw [Accounted, hnew.flowsGenerated, hnew.liveFlows, hnew.nFlows]
  exact u32_succ_iff h hlt

section Ends

variable (P) (now : Nat) {id : Nat} (startTime : Nat) (d : FlowDraws) {g : FlowGenerator}

/-- A flow that ends and is not replaced. -/
theorem endFlow_alone (hrep : g.replaceFlow = false) (hlive : id ∈ g.liveFlows)
    (h : Accounted g) (hlt : g.flowsGenerated < 2 ^ 32) :
    let r := endFlow P now id startTime d g
    r.2 = none ∧ r.1.liveFlows = g.liveFlows.erase id ∧
      r.1.flowsGenerated = g.flowsGenerated ∧ (Accounted r.1 ↔ P.addsFct = true) := by
  obtain ⟨fctSum, heq⟩ := endFlow_eq P now id startTime d g
  obtain ⟨-, hfin⟩ | ⟨hrep', -⟩ := FlowGenerator.finishFlow_spec now d hlive
  · have hcard := Finset.card_erase_add_one hlive
    rw [Accounted] at h
    rw [heq, hfin]
    refine ⟨rfl, rfl, rfl, ?_⟩
    rw [Accounted]
    dsimp only
    -- the flow leaves the live ones; `addFct` counts it, or nothing does
    split_ifs with hadds
    · rw [Nat.mod_eq_of_lt (by omega)]
      exact iff_of_true (by omega) hadds
    · exact iff_of_false (by omega) hadds
  · rw [hrep] at hrep'
    cases hrep'

/-- A flow that ends and is replaced. -/
theorem endFlow_replaced (hrep : g.replaceFlow = true) (hlive : id ∈ g.liveFlows)
    (h : Accounted g) (hlt : g.flowsGenerated < 2 ^ 32) :
    let r := endFlow P now id startTime d g
    (∃ new, r.2 = some new ∧ new.id = g.newId d) ∧
      r.1.liveFlows = insert (g.newId d) (g.liveFlows.erase id) ∧
      r.1.flowsGenerated = u32 (g.flowsGenerated + 1) ∧
      (Accounted r.1 ↔
        (g.newId d ∉ g.liveFlows.erase id ∧ g.flowsGenerated + 1 < 2 ^ 32) ∧
          P.addsFct = true) := by
  obtain ⟨fctSum, heq⟩ := endFlow_eq P now id startTime d g
  obtain ⟨hrep', -⟩ | ⟨-, g', new, hfin, hnew, -⟩ :=
    FlowGenerator.finishFlow_spec now d hlive
  · rw [hrep] at hrep'
    cases hrep'
  · have hcard := Finset.card_erase_add_one hlive
    rw [Accounted] at h
    rw [heq, hfin]
    have hset : g'.liveFlows = insert (g.newId d) (g.liveFlows.erase id) := hnew.liveFlows
    have hgen : g'.flowsGenerated = u32 (g.flowsGenerated + 1) := hnew.flowsGenerated
    have hsame : g'.nFlows = g.nFlows := hnew.nFlows
    refine ⟨⟨new, rfl, hnew.id⟩, hset, hgen, ?_⟩
    rw [Accounted]
    dsimp only
    rw [hset, hgen, hsame]
    -- without `addFct` one flow is generated and none is counted
    split_ifs with hadds
    · rw [Nat.mod_eq_of_lt (by omega), and_iff_left hadds]
      exact u32_succ_iff (by omega) hlt
    · refine iff_of_false ?_ fun hand => hadds hand.2
      exact u32_succ_ne (by omega) hlt

end Ends

/-- One step: the counters stay right exactly when it counts once. -/
theorem tracked_step {s t : GeneratedFlows S K} {a : Act} (h : s.Tracked P)
    (hstep : (system P simEnd).step s a = some t) :
    (Accounted t.gen ↔ s.CountedOnce P a) ∧ (s.CountedOnce P a → t.Tracked P) := by
  cases stepped hstep with
  | @elapsed e time d g hpop hover =>
    -- no flow is created or ended
    have hnone : s.creating P (.event e time d) = none := if_pos hover
    have hcounts : s.CountedOnce P (.event e time d) := by
      rw [CountedOnce, Numbered, hnone]
      exact ⟨nofun, nofun⟩
    obtain ⟨_, _, rfl⟩ := popEvent_eq hpop
    exact ⟨iff_of_true h.accounted hcounts, fun _ => ⟨h.accounted, h.fits, h.registered⟩⟩
  | @created e time d g g' new hpop hbefore hnew hcount hnext =>
    have hcounts : s.CountedOnce P (.event e time d) ↔
        s.gen.newId d ∉ s.gen.liveFlows ∧ s.gen.flowsGenerated + 1 < 2 ^ 32 := by
      have hsome : s.creating P (.event e time d) = some s.gen.liveFlows := if_neg hbefore
      rw [CountedOnce, Numbered, hsome]
      exact ⟨fun hand => hand.1 _ rfl,
        fun hand => ⟨fun live hl => Option.some.inj hl ▸ hand, nofun⟩⟩
    rw [hcounts]
    obtain ⟨_, _, rfl⟩ := popEvent_eq hpop
    have hiff := accounted_created hnew h.accounted h.fits
    refine ⟨hiff, fun hand => ⟨hiff.mpr hand, ?_, ?_⟩⟩
    · show g'.flowsGenerated < 2 ^ 32
      rw [hnew.flowsGenerated]
      exact u32_lt _
    · have hid : (newFlow P simEnd time new).1 = s.gen.newId d := hnew.id
      have hset : g'.liveFlows = insert (s.gen.newId d) s.gen.liveFlows := hnew.liveFlows
      show Registered _ (s.flows ++ _) g'.liveFlows
      rw [hset, ← hid]
      exact h.registered.append (hid ▸ hand.1)
  | @moved i a d e f he hf hgo =>
    have hcounts : s.CountedOnce P (.flow i a d) := by
      have hnone : s.creating P (.flow i a d) = none := by
        rw [creating_flow he, if_neg fun hand => Bool.false_ne_true (hgo.symm.trans hand.1)]
      have hgoes : s.ends P (.flow i a d) = false := by
        rw [ends_flow he, hgo]
      rw [CountedOnce, Numbered, hnone, hgoes]
      exact ⟨nofun, nofun⟩
    refine ⟨iff_of_true h.accounted hcounts, fun _ => ⟨h.accounted, h.fits, ?_⟩⟩
    exact h.registered.set he fun hopen => (Flow.open_of_step hf hopen).1
  | @ended i a d e f he hf hends =>
    -- the flow was open, so its key is there to be erased
    have hopen : IsOpen P e.2 := Flow.open_of_endsFlow hends
    have hclosed : ¬ IsOpen P f := fun hf' =>
      absurd ((Flow.open_of_step hf hf').2.symm.trans hends) Bool.false_ne_true
    have hlive : e.1 ∈ s.gen.liveFlows := h.registered.mem i e he hopen
    have hclose := h.registered.close he hopen hclosed
    have hgone : s.ends P (.flow i a d) = true := by
      rw [ends_flow he, hends]
    cases hrep : s.gen.replaceFlow with
    | false =>
      -- one live flow less, and one counted more if the handler counts it
      have hcounts : s.CountedOnce P (.flow i a d) ↔ P.addsFct = true := by
        have hnone : s.creating P (.flow i a d) = none := by
          rw [creating_flow he,
            if_neg fun hand => Bool.false_ne_true (hrep.symm.trans hand.2.2)]
        rw [CountedOnce, Numbered, hnone, hgone]
        exact ⟨fun hand => hand.2 rfl, fun hadds => ⟨nofun, fun _ => hadds⟩⟩
      obtain ⟨hnew, hset, hgen, hiff⟩ := endFlow_alone P f.now
        (P.endhost.source f.src).startTime d hrep hlive h.accounted h.fits
      refine ⟨hiff.trans hcounts.symm, fun hand => ⟨hiff.mpr (hcounts.mp hand), ?_, ?_⟩⟩
      · show (endFlow P _ _ _ _ _).1.flowsGenerated < 2 ^ 32
        rw [hgen]
        exact h.fits
      · show Registered _ (_ ++ _) (endFlow P _ _ _ _ _).1.liveFlows
        rw [hset, hnew, Option.map_none, Option.toList_none, List.append_nil]
        exact hclose
    | true =>
      have hcounts : s.CountedOnce P (.flow i a d) ↔
          (s.gen.newId d ∉ s.gen.liveFlows.erase e.1 ∧ s.gen.flowsGenerated + 1 < 2 ^ 32) ∧
            P.addsFct = true := by
        have hsome : s.creating P (.flow i a d) = some (s.gen.liveFlows.erase e.1) := by
          rw [creating_flow he, if_pos ⟨hends, hlive, hrep⟩]
        rw [CountedOnce, Numbered, hsome, hgone]
        exact ⟨fun hand => ⟨hand.1 _ rfl, hand.2 rfl⟩,
          fun hand => ⟨fun live hl => Option.some.inj hl ▸ hand.1, fun _ => hand.2⟩⟩
      obtain ⟨⟨new, hnew, hid⟩, hset, hgen, hiff⟩ := endFlow_replaced P f.now
        (P.endhost.source f.src).startTime d hrep hlive h.accounted h.fits
      refine ⟨hiff.trans hcounts.symm, fun hand => ⟨hiff.mpr (hcounts.mp hand), ?_, ?_⟩⟩
      · show (endFlow P _ _ _ _ _).1.flowsGenerated < 2 ^ 32
        rw [hgen]
        exact u32_lt _
      · -- the new flow has taken the place of the one that ended
        have hkey : (newFlow P simEnd f.now new).1 = s.gen.newId d := hid
        show Registered _ (_ ++ _) (endFlow P _ _ _ _ _).1.liveFlows
        rw [hset, hnew, Option.map_some, Option.toList_some, ← hkey]
        exact hclose.append (hkey ▸ (hcounts.mp hand).1.1)

end Steps

/-! ## Runs -/

section Runs

variable {simEnd : Nat} {limited : Bool} {g : FlowGenerator}

theorem accounted_iff {S K : Type} (P : Protocol S K) (hconf : Configured simEnd limited g)
    (acts : List Act) :
    (system P simEnd).Always (fun s => Accounted s.gen) (start g) acts ↔
      (system P simEnd).Along (CountedOnce P) (start g) acts := by
  have hfresh := hconf.fresh
  have hstart : (start g : GeneratedFlows S K).Tracked P := by
    refine ⟨?_, ?_, .nil⟩
    · show g.flowsGenerated = g.liveFlows.card + g.nFlows
      rw [hfresh.flowsGenerated, hfresh.liveFlows, hfresh.nFlows]
      rfl
    · show g.flowsGenerated < 2 ^ 32
      rw [hfresh.flowsGenerated]
      exact Nat.two_pow_pos 32
  -- `Tracked` is kept by the steps that count once, and an accounted step counts once
  have hboth := Lts.always_and_along_iff (M := system P simEnd) (J := Tracked P)
    (P := fun s => Accounted s.gen) (E := fun _ _ => True) (G := CountedOnce P)
    (fun s h => h.accounted)
    (fun s a t h hstep hcounts => ⟨(tracked_step h hstep).2 hcounts, trivial⟩)
    (fun s a t h hstep hacc _ => (tracked_step h hstep).1.mp hacc) acts hstart
  exact (and_iff_left (Lts.along_of_step (fun _ _ _ _ => trivial) acts)).symm.trans hboth

/-- Flow accounting, of the protocols that `createFlow` supports.  TCP counts what ends; with the
    other two, the accounts are right as long as no flow ends. -/
theorem flows_accounted_iff {D₁ D₂ D₃ : Type} (cfg : TcpConfig D₁) (pair : PairFloat D₂)
    (timely : TimelyFloat D₃) (hconf : Configured simEnd limited g) (acts : List Act) :
    ((system (tcpProtocol cfg) simEnd).Always (fun s => Accounted s.gen) (start g) acts ↔
      (system (tcpProtocol cfg) simEnd).Along (Numbered (tcpProtocol cfg)) (start g) acts) ∧
    ((system (packetPairProtocol pair) simEnd).Always (fun s => Accounted s.gen) (start g) acts ↔
      (system (packetPairProtocol pair) simEnd).Along
        (fun s a => s.Numbered (packetPairProtocol pair) a ∧
          s.ends (packetPairProtocol pair) a = false) (start g) acts) ∧
    ((system (timelyProtocol timely) simEnd).Always (fun s => Accounted s.gen) (start g) acts ↔
      (system (timelyProtocol timely) simEnd).Along
        (fun s a => s.Numbered (timelyProtocol timely) a ∧
          s.ends (timelyProtocol timely) a = false) (start g) acts) := by
  -- a protocol that calls no `addFct` is right as long as no flow ends
  have hnever : ∀ {b : Bool}, (b = true → false = true) ↔ b = false := by
    intro b
    cases b with
    | false => exact iff_of_true nofun rfl
    | true => exact iff_of_false (fun h => Bool.false_ne_true (h rfl)) nofun
  refine ⟨?_, ?_, ?_⟩
  · refine (accounted_iff _ hconf acts).trans (Lts.along_congr (fun s a t _ => ?_) acts)
    exact and_iff_left fun _ => rfl
  · refine (accounted_iff _ hconf acts).trans (Lts.along_congr (fun s a t _ => ?_) acts)
    exact and_congr_right fun _ => hnever
  · refine (accounted_iff _ hconf acts).trans (Lts.along_congr (fun s a t _ => ?_) acts)
    exact and_congr_right fun _ => hnever

end Runs

/-- With TCP: three flows, two of them live and one counted. -/
theorem accounted_replacedRun :
    (((system (tcpProtocol plainTcp) 0).run (start twoFlowsPending) replacedRun).map fun s =>
        (s.gen.flowsGenerated, s.gen.liveFlows.card, s.gen.nFlows)) = some (3, 2, 1) ∧
      (system (tcpProtocol plainTcp) 0).Always (fun s => Accounted s.gen) (start twoFlowsPending)
        replacedRun :=
  ⟨by decide +kernel,
    (flows_accounted_iff plainTcp exactPair exactTimely configured_twoFlows replacedRun).1.mpr
      (by decide +kernel)⟩

/-- The other two sources do not count the flow that has ended. -/
theorem ended_uncounted :
    ¬ (system (packetPairProtocol exactPair) 0).Always (fun s => Accounted s.gen)
        (start twoFlowsPending) replacedRun ∧
      ¬ (system (timelyProtocol exactTimely) 0).Always (fun s => Accounted s.gen)
        (start twoFlowsPending) replacedRun := by
  have hpair : (((system (packetPairProtocol exactPair) 0).run (start twoFlowsPending)
      replacedRun).map fun s => decide (Accounted s.gen)) = some false := by
    decide +kernel
  have htimely : (((system (timelyProtocol exactTimely) 0).run (start twoFlowsPending)
      replacedRun).map fun s => decide (Accounted s.gen)) = some false := by
    decide +kernel
  constructor
  · intro hall
    obtain ⟨s, hs, hnot⟩ := Option.map_eq_some_iff.mp hpair
    exact of_decide_eq_false hnot (hall.last hs)
  · intro hall
    obtain ⟨s, hs, hnot⟩ := Option.map_eq_some_iff.mp htimely
    exact of_decide_eq_false hnot (hall.last hs)

end GeneratedFlows
end Htsim
end DatacenterNetworking
