/-
  DatacenterNetworking.Conga.RouteShape

  Are the bare offsets of the testbed right?  `asSrcToR` takes `route[size - 4]` for
  the destination ToR, a core queue takes the hop behind its next one for it,
  `updateRoute` writes four hops from the next one on, and `receivePacket` of a ToR
  reads off the flag `PASSED_CORE` which of the two it is.

  `Indexed` is the range of every number that indexes a table: the leaves and servers
  of the flows, the cores of the routes, the feedback tags of the ToRs and the tags
  of the packets.  Every step keeps it, and with `Wf` it gives the answer, `Shaped`,
  for every state of every run.
-/

import DatacenterNetworking.Conga.TagPath
import DatacenterNetworking.Conga.LeastCongested

namespace DatacenterNetworking
namespace Conga

namespace Testbed

/-! ## Indices in range -/

/-- A leaf and a server for each end of the flow, the leaves different. -/
structure FlowSpec.InRange (sp : FlowSpec) : Prop where
  srcToR_lt : sp.srcToR < N_LEAF
  sInRack_lt : sp.sInRack < N_SERVER
  dstToR_lt : sp.dstToR < N_LEAF
  dInRack_lt : sp.dInRack < N_SERVER
  ne : sp.srcToR ≠ sp.dstToR

/-- The tags of a packet, with which both ToRs index their tables and `updateRoute` the
    arrays of queues and pipes. -/
structure VxlanInRange (v : Vxlan) : Prop where
  src_lt : v.src < N_LEAF
  dst_lt : v.dst < N_LEAF
  lbtag_lt : v.lbtag < N_CORE
  fbLbtag_lt : v.fbLbtag < N_CORE

/-- Every number that is kept to index a table is in its range. -/
structure Indexed (s : State) : Prop where
  specs : ∀ f < s.nFlows, (s.specs f).InRange
  routes : ∀ f < s.nFlows, ∀ rev, ∃ core < N_CORE,
    s.routes f rev = (s.specs f).routeOver f rev core
  nxtLbTag : ∀ leaf l, (s.tors leaf).nxtLbTag l < N_CORE
  tags : ∀ p ∈ s.pkts, p.stamped = true → p.vxlan.lbtag < N_CORE ∧ p.vxlan.fbLbtag < N_CORE

theorem nCore_pos : 0 < N_CORE := Nat.zero_lt_succ 1

theorem routeGenerate_inRange (r₁ r₂ r₃ r₄ r₅ : Nat) :
    (routeGenerate r₁ r₂ r₃ r₄ r₅).InRange ∧ (routeGenerate r₁ r₂ r₃ r₄ r₅).core < N_CORE := by
  simp only [routeGenerate, N_LEAF, N_SERVER]
  refine ⟨⟨?_, ?_, ?_, ?_, ?_⟩, Nat.mod_lt _ nCore_pos⟩ <;> simp only [N_LEAF, N_SERVER] <;> omega

theorem FlowSpec.InRange.srcLeaf_lt {sp : FlowSpec} (h : sp.InRange) (rev : Bool) :
    sp.srcLeaf rev < N_LEAF := by
  cases rev with
  | false => exact h.srcToR_lt
  | true => exact h.dstToR_lt

theorem FlowSpec.InRange.dstLeaf_lt {sp : FlowSpec} (h : sp.InRange) (rev : Bool) :
    sp.dstLeaf rev < N_LEAF := by
  cases rev with
  | false => exact h.dstToR_lt
  | true => exact h.srcToR_lt

theorem indexed_built (endhostQ : Bool) (rand : Nat → Nat → Nat) :
    Indexed (built endhostQ fun leaf l => rand leaf l % N_CORE) where
  specs := fun f hf => absurd hf (Nat.not_lt_zero f)
  routes := fun f hf => absurd hf (Nat.not_lt_zero f)
  nxtLbTag := fun _ _ => Nat.mod_lt _ nCore_pos
  tags := fun _ hp => absurd hp List.not_mem_nil

/-! ## One step -/

section Step

variable {s t : State}

/-- An update of one entry of the feedback tags of one ToR. -/
theorem nxtLbTag_update {tors : Nat → ToR} (h : ∀ leaf l, (tors leaf).nxtLbTag l < N_CORE)
    {leaf l tag : Nat} {tor : ToR} (htag : tag < N_CORE)
    (htor : tor.nxtLbTag = Function.update (tors leaf).nxtLbTag l tag) (leaf' l' : Nat) :
    (Function.update tors leaf tor leaf').nxtLbTag l' < N_CORE := by
  by_cases hleaf : leaf' = leaf
  · rw [hleaf, Function.update_self, htor]
    by_cases hl : l' = l
    · rw [hl, Function.update_self]
      exact htag
    · rw [Function.update_of_ne hl]
      exact h leaf l'
  · rw [Function.update_of_ne hleaf]
    exact h leaf' l'

theorem indexed_createFlow {r₁ r₂ r₃ r₄ r₅ : Nat} (h : Indexed s)
    (hstep : step s (.createFlow r₁ r₂ r₃ r₄ r₅) = some t) : Indexed t := by
  obtain ⟨hrange, hcore⟩ := routeGenerate_inRange r₁ r₂ r₃ r₄ r₅
  cases hstep
  refine
    { specs := fun f hf => ?_
      routes := fun f hf rev => ?_
      nxtLbTag := h.nxtLbTag
      tags := h.tags }
  · show (Function.update s.specs s.nFlows _ f).InRange
    by_cases hfn : f = s.nFlows
    · rw [hfn, Function.update_self]
      exact ⟨hrange.srcToR_lt, hrange.sInRack_lt, hrange.dstToR_lt, hrange.dInRack_lt, hrange.ne⟩
    · rw [Function.update_of_ne hfn]
      exact h.specs f (lt_of_le_of_ne (Nat.lt_succ_iff.mp hf) hfn)
  · show ∃ core < N_CORE, Function.update s.routes s.nFlows _ f rev =
      (Function.update s.specs s.nFlows _ f).routeOver f rev core
    by_cases hfn : f = s.nFlows
    · subst hfn
      rw [Function.update_self, Function.update_self]
      -- both directions start out over the core that `routeGenerate` drew
      refine ⟨_, hcore, ?_⟩
      cases rev with
      | false => exact FlowSpec.fwd_eq _ _
      | true => exact FlowSpec.bwd_eq _ _
    · rw [Function.update_of_ne hfn, Function.update_of_ne hfn]
      exact h.routes f (lt_of_le_of_ne (Nat.lt_succ_iff.mp hf) hfn) rev

theorem indexed_emit {flow size rand ce : Nat} {rev : Bool} {old : Vxlan} (h : Indexed s)
    (hwf : Wf s) (hstep : step s (.emit flow rev size old rand ce) = some t) : Indexed t := by
  obtain ⟨out, rfl, hout⟩ := emit_cases hwf hstep
  refine
    { specs := h.specs
      routes := h.routes
      nxtLbTag := h.nxtLbTag
      tags := fun p hp hst => ?_ }
  rcases List.mem_append.mp hp with hp | hp
  · exact h.tags p hp hst
  · rw [(hout p (Option.mem_toList.mp hp)).2] at hst
    cases hst

theorem indexed_depart {i rand ce : Nat} (h : Indexed s) (hwf : Wf s)
    (hstep : step s (.depart i rand ce) = some t) : Indexed t := by
  obtain ⟨p, out, hi, hp, -, hmoved⟩ := depart_cases hwf hstep
  have hold : ∀ q ∈ s.pkts.eraseIdx i, q.stamped = true →
      q.vxlan.lbtag < N_CORE ∧ q.vxlan.fbLbtag < N_CORE :=
    fun q hq => h.tags q (List.mem_of_mem_eraseIdx hq)
  have hmem := List.mem_of_getElem? hi
  cases hmoved with
  | plain hhop hplain hdone hout =>
    refine
      { specs := h.specs
        routes := h.routes
        nxtLbTag := h.nxtLbTag
        tags := fun q hq hst => ?_ }
    rcases List.mem_append.mp hq with hq | hq
    · exact hold q hq hst
    · have hq' := hout q (Option.mem_toList.mp hq)
      subst hq'
      exact h.tags p hmem hst
  | core hhop hne hstamped hlt hout =>
    refine
      { specs := h.specs
        routes := h.routes
        nxtLbTag := h.nxtLbTag
        tags := fun q hq hst => ?_ }
    rcases List.mem_append.mp hq with hq | hq
    · exact hold q hq hst
    · obtain ⟨-, -, -, -, -, -, -, htag, hfb, -⟩ := hout q (Option.mem_toList.mp hq)
      rw [htag, hfb]
      exact h.tags p hmem hstamped
  | @dst leaf hop _ hhop hstamped hdone hpassed hout =>
    -- the ToR writes the tag of the packet into its own table
    refine
      { specs := h.specs
        routes := h.routes
        nxtLbTag := nxtLbTag_update h.nxtLbTag (h.tags p hmem hstamped).1 rfl
        tags := fun q hq hst => ?_ }
    rcases List.mem_append.mp hq with hq | hq
    · exact hold q hq hst
    · have hq' := hout q (Option.mem_toList.mp hq)
      subst hq'
      exact h.tags p hmem hst
  | @src leaf dst _ v hhop hstamped hpassed hdst hv hout =>
    have hlbtag : v.lbtag < N_CORE := by
      rw [hv]
      exact ToR.minCongestedCore_lt nCore_pos rand _ dst
    have hfb : v.fbLbtag < N_CORE := by
      rw [hv]
      exact h.nxtLbTag leaf dst
    refine
      { specs := h.specs
        routes := fun f hf rev => ?_
        nxtLbTag := nxtLbTag_update h.nxtLbTag (Nat.mod_lt _ nCore_pos) rfl
        tags := fun q hq hst => ?_ }
    · show ∃ core < N_CORE, Function.update s.routes p.flow _ f rev =
        (s.specs f).routeOver f rev core
      by_cases hf' : f = p.flow
      · subst hf'
        rw [Function.update_self]
        by_cases hr : rev = p.rev
        · -- the one route that is rewritten, to the core the ToR picked
          rw [hr, Function.update_self]
          exact ⟨v.lbtag, hlbtag, rfl⟩
        · rw [Function.update_of_ne hr]
          exact h.routes _ hf rev
      · rw [Function.update_of_ne hf']
        exact h.routes f hf rev
    · rcases List.mem_append.mp hq with hq | hq
      · exact hold q hq hst
      · obtain ⟨-, -, -, -, -, hvx, -⟩ := hout q (Option.mem_toList.mp hq)
        rw [hvx]
        exact ⟨hlbtag, hfb⟩

theorem indexed_step (s : State) (a : Act) (t : State) (h : Wf s ∧ Indexed s)
    (hstep : system.step s a = some t) : Wf t ∧ Indexed t := by
  refine ⟨wf_step s a t h.1 hstep, ?_⟩
  cases a with
  | createFlow r₁ r₂ r₃ r₄ r₅ => exact indexed_createFlow h.2 hstep
  | emit flow rev size old rand ce => exact indexed_emit h.2 h.1 hstep
  | depart i rand ce => exact indexed_depart h.2 h.1 hstep

end Step

/-! ## What the offsets find -/

/-- The next hop of a packet, by how far it got. -/
inductive NextHop (s : State) (p : Pkt) : Hop → Prop
  | plain {hop : Hop} (hplain : hop.Plain) : NextHop s p hop
  | srcTor (hn : p.nexthop + 1 = s.beforeLen p) (hpassed : p.passedCore = false) :
      NextHop s p (.tor ((s.specOf p).srcLeaf p.rev))
  | coreQueue {core : Nat} (hn : p.nexthop = s.beforeLen p + 2) :
      NextHop s p (.qCoreToR core ((s.specOf p).dstLeaf p.rev))
  | dstTor (hn : p.nexthop = s.beforeLen p + 4) (hpassed : p.passedCore = true)
      (hstamped : p.stamped = true) : NextHop s p (.tor ((s.specOf p).dstLeaf p.rev))

section Lookup

variable {s : State} {p : Pkt}

theorem nextHop (hwf : Wf s) (hp : PktWf s p) {hop : Hop}
    (hhop : (s.route p)[p.nexthop]? = some hop) : NextHop s p hop := by
  obtain ⟨core, hroute⟩ := hwf.route_eq hp
  rw [hroute] at hhop
  cases hst : p.stamped with
  | false =>
    obtain ⟨hlt, hpassed, -⟩ := hp.unstamped hst
    by_cases hn : p.nexthop + 1 = s.beforeLen p
    · rw [routeOver_srcTor _ _ _ _ hn] at hhop
      cases hhop
      exact .srcTor hn hpassed
    · have hlt' : p.nexthop + 1 < s.beforeLen p := by omega
      obtain ⟨hop', hhop', hplain⟩ :=
        routeOver_before (s.specOf p) p.flow p.rev core hlt'
      rw [hhop] at hhop'
      cases hhop'
      exact .plain hplain
  | true =>
    obtain ⟨hlow, hlen, hpassed, -⟩ := hp.stamped hst
    obtain ⟨k, hk⟩ := Nat.exists_eq_add_of_lt hlow
    -- `k + 1` hops behind the source ToR
    have hn : p.nexthop = s.beforeLen p + (k + 1) := by omega
    rw [hn] at hhop
    by_cases hk3 : k + 1 < 4
    · rw [show s.beforeLen p = ((s.specOf p).before p.flow p.rev).length from rfl,
        routeOver_core _ _ _ _ hk3] at hhop
      have hcases : k = 0 ∨ k = 1 ∨ k = 2 := by omega
      rcases hcases with rfl | rfl | rfl
      · cases hhop
        exact .plain ⟨fun _ => nofun, fun _ _ => nofun⟩
      · cases hhop
        exact .coreQueue hn
      · cases hhop
        exact .plain ⟨fun _ => nofun, fun _ _ => nofun⟩
    · obtain ⟨j, hj⟩ := Nat.exists_eq_add_of_le (show 4 ≤ k + 1 by omega)
      rw [hj] at hhop hn
      rw [show s.beforeLen p = ((s.specOf p).before p.flow p.rev).length from rfl,
        routeOver_after] at hhop
      cases j with
      | zero =>
        rw [after_zero] at hhop
        cases hhop
        exact .dstTor hn (hpassed.mpr (by omega)) hst
      | succ j => exact .plain (after_succ _ _ _ hhop)

theorem route_dstTor (hwf : Wf s) (hp : PktWf s p) :
    s.dstTor p = some ((s.specOf p).dstLeaf p.rev) := by
  obtain ⟨core, hroute⟩ := hwf.route_eq hp
  simp only [State.dstTor]
  rw [hroute, routeOver_dstTor]

end Lookup

/-- The packets that an element may be about to receive: those in the network, and those that
    an end host may send. -/
def State.Handles (s : State) (p : Pkt) : Prop :=
  p ∈ s.pkts ∨ ∃ flow < s.nFlows, ∃ rev size old, p = Pkt.new flow rev size old

/-- What the element that receives a packet next finds. -/
structure Guided (s : State) (p : Pkt) : Prop where
  /-- `route[size - 4]` is the destination ToR. -/
  dstTor : s.dstTor p = some ((s.specOf p).dstLeaf p.rev)
  /-- `nexthop` has advanced by one when a core queue looks at the hop behind its next one.
      The number of that ToR indexes its table. -/
  egress : ∀ core leaf, (s.route p)[p.nexthop]? = some (.qCoreToR core leaf) →
    (s.route p)[p.nexthop + 1 + 1]? = some (.tor ((s.specOf p).dstLeaf p.rev)) ∧
      (s.specOf p).dstLeaf p.rev < N_LEAF
  /-- A ToR that takes itself for the source is the first on the path, and the tags it
      writes are in range. -/
  asSrcToR : ∀ leaf, (s.route p)[p.nexthop]? = some (.tor leaf) → p.passedCore = false →
    leaf = (s.specOf p).srcLeaf p.rev ∧
      (∀ j < p.nexthop, ∀ l, (s.route p)[j]? ≠ some (.tor l)) ∧
      ∀ rand, VxlanInRange
        ((s.tors leaf).asSrcToR N_CORE rand ((s.specOf p).dstLeaf p.rev)).2
  /-- A ToR that takes itself for the destination is the second, and the tags it reads are
      in range. -/
  asDstToR : ∀ leaf, (s.route p)[p.nexthop]? = some (.tor leaf) → p.passedCore = true →
    leaf = (s.specOf p).dstLeaf p.rev ∧
      (∃ j < p.nexthop, (s.route p)[j]? = some (.tor ((s.specOf p).srcLeaf p.rev))) ∧
      VxlanInRange p.vxlan

/-- The routes are complete paths, and every lookup on them finds what it is meant to. -/
structure Shaped (s : State) : Prop where
  tors : ∀ leaf, (s.tors leaf).idTor = leaf
  specs : ∀ f < s.nFlows, (s.specs f).InRange
  routes : ∀ f < s.nFlows, ∀ rev, ∃ core < N_CORE,
    s.routes f rev = (s.specs f).routeOver f rev core
  packets : ∀ p, s.Handles p → Guided s p

section Guided

variable {s : State} {p : Pkt}

/-- There are no ToRs before the first. -/
theorem no_tor_before (hwf : Wf s) (hp : PktWf s p) (hn : p.nexthop + 1 = s.beforeLen p) :
    ∀ j < p.nexthop, ∀ l, (s.route p)[j]? ≠ some (.tor l) := by
  intro j hj l hl
  obtain ⟨core, hroute⟩ := hwf.route_eq hp
  have hj' : j + 1 < s.beforeLen p := by omega
  obtain ⟨hop, hhop, hplain⟩ := routeOver_before (s.specOf p) p.flow p.rev core hj'
  rw [hroute, hhop] at hl
  exact hplain.1 l (Option.some.inj hl)

/-- The first ToR is before the second. -/
theorem srcTor_before (hwf : Wf s) (hp : PktWf s p) (hn : p.nexthop = s.beforeLen p + 4) :
    ∃ j < p.nexthop, (s.route p)[j]? = some (.tor ((s.specOf p).srcLeaf p.rev)) := by
  obtain ⟨core, hroute⟩ := hwf.route_eq hp
  have hpos : 2 < s.beforeLen p := FlowSpec.two_lt_before _ p.flow p.rev
  refine ⟨s.beforeLen p - 1, by omega, ?_⟩
  rw [hroute]
  exact routeOver_srcTor _ _ _ _ (Nat.sub_add_cancel (by omega))

theorem guided (hwf : Wf s) (hidx : Indexed s) (hp : PktWf s p)
    (htags : p.stamped = true → p.vxlan.lbtag < N_CORE ∧ p.vxlan.fbLbtag < N_CORE) :
    Guided s p := by
  have hrange : (s.specOf p).InRange := hidx.specs p.flow hp.flow_lt
  refine
    { dstTor := route_dstTor hwf hp
      egress := fun core leaf hhop => ?_
      asSrcToR := fun leaf hhop hpassed => ?_
      asDstToR := fun leaf hhop hpassed => ?_ }
  · -- the two hops behind the core queue are its pipe and the ToR
    cases nextHop hwf hp hhop with
    | plain hplain => exact absurd rfl (hplain.2 core leaf)
    | coreQueue hn =>
      obtain ⟨core', hroute⟩ := hwf.route_eq hp
      rw [hroute, hn]
      refine ⟨?_, hrange.dstLeaf_lt p.rev⟩
      exact (routeOver_after (s.specOf p) p.flow p.rev core' 0).trans (after_zero _ _ _)
  -- the packet visits a ToR unstamped on the way out and stamped on the way in
  · cases nextHop hwf hp hhop with
    | plain hplain => exact absurd rfl (hplain.1 leaf)
    | srcTor hn _ =>
      refine ⟨rfl, no_tor_before hwf hp hn, fun rand => ?_⟩
      exact
        { src_lt := (hwf.idTor _).trans_lt (hrange.srcLeaf_lt p.rev)
          dst_lt := hrange.dstLeaf_lt p.rev
          lbtag_lt := ToR.minCongestedCore_lt nCore_pos rand _ _
          fbLbtag_lt := hidx.nxtLbTag _ _ }
    | dstTor _ hpassed' =>
      rw [hpassed] at hpassed'
      cases hpassed'
  · cases nextHop hwf hp hhop with
    | plain hplain => exact absurd rfl (hplain.1 leaf)
    | srcTor _ hpassed' =>
      rw [hpassed] at hpassed'
      cases hpassed'
    | dstTor hn _ hst =>
      obtain ⟨-, -, -, hsrc, hdst⟩ := hp.stamped hst
      refine ⟨rfl, srcTor_before hwf hp hn, ?_⟩
      exact
        { src_lt := by rw [hsrc]; exact hrange.srcLeaf_lt p.rev
          dst_lt := by rw [hdst]; exact hrange.dstLeaf_lt p.rev
          lbtag_lt := (htags hst).1
          fbLbtag_lt := (htags hst).2 }

end Guided

theorem shaped_of_indexed {s : State} (hwf : Wf s) (hidx : Indexed s) : Shaped s where
  tors := hwf.idTor
  specs := hidx.specs
  routes := hidx.routes
  packets := fun p hp => by
    rcases hp with hp | ⟨flow, hf, rev, size, old, rfl⟩
    · exact guided hwf hidx (hwf.pkts p hp) (hidx.tags p hp)
    · exact guided hwf hidx (pktWf_new hf rev size old).1 fun hst => by cases hst

/-- In every state of every run the routes are complete paths over one core each, and both
    lookups, the flag and the table indices are right for every packet; with end-host queues
    or without. -/
theorem routes_shaped (endhostQ : Bool) (rand : Nat → Nat → Nat) (acts : List Act) :
    system.Always Shaped (built endhostQ fun leaf l => rand leaf l % N_CORE) acts :=
  Lts.always_of_along (fun s a t h _ hstep => indexed_step s a t h hstep)
    (fun _ h => shaped_of_indexed h.1 h.2) ⟨wf_built endhostQ _, indexed_built endhostQ rand⟩
    (Lts.along_of_forall_mem (P := fun _ => True) fun _ _ => trivial)

end Testbed
end Conga
end DatacenterNetworking
