/-
  DatacenterNetworking.Conga.TagPath

  Does a packet travel over the core its tag names?  All packets of a flow in one
  direction share a route vector, and the source ToR writes the four hops between
  the ToRs into it for each packet that passes.  A packet that is still on its way
  between the ToRs then follows the hops of the later one.

  `Wf` is what holds in every run, whatever the routes say: their shape, and where
  a packet is in relation to its two ToRs.  `Agrees` is the agreement of tags and
  paths.  `agrees_iff_keepsTag` says in which runs it holds: those in which no
  packet is given a core while a packet of the same flow and direction is between
  the ToRs with the tag of another.
-/

import DatacenterNetworking.Conga.Testbed

namespace DatacenterNetworking
namespace Conga
namespace Testbed

/-! ## The shape of a route -/

/-- The four elements between the ToRs `src` and `dst` over a core. -/
def coreHops (core src dst : Nat) : List Hop :=
  [.qToRCore core src, .pToRCore core src, .qCoreToR core dst, .pCoreToR core dst]

namespace FlowSpec

/-- The leaf of the sending host, by direction. -/
def srcLeaf (sp : FlowSpec) (rev : Bool) : Nat := if rev then sp.dstToR else sp.srcToR

def dstLeaf (sp : FlowSpec) (rev : Bool) : Nat := if rev then sp.srcToR else sp.dstToR

/-- The route up to the source ToR. -/
def before (sp : FlowSpec) (flow : Nat) : Bool → List Hop
  | false => sp.endhost flow ++ [.qServerToR sp.srcToR sp.sInRack,
      .pServerToR sp.srcToR sp.sInRack, .tor sp.srcToR]
  | true => [.qServerToR sp.dstToR sp.dInRack, .pServerToR sp.dstToR sp.dInRack,
      .tor sp.dstToR]

/-- The route from the destination ToR on. -/
def after (sp : FlowSpec) (flow : Nat) : Bool → List Hop
  | false => [.tor sp.dstToR, .qToRServer sp.dstToR sp.dInRack,
      .pToRServer sp.dstToR sp.dInRack, .snk flow]
  | true => [.tor sp.srcToR, .qToRServer sp.srcToR sp.sInRack,
      .pToRServer sp.srcToR sp.sInRack, .src flow]

/-- A route of the flow over a core. -/
def routeOver (sp : FlowSpec) (flow : Nat) (rev : Bool) (core : Nat) : List Hop :=
  sp.before flow rev ++ (coreHops core (sp.srcLeaf rev) (sp.dstLeaf rev) ++ sp.after flow rev)

theorem fwd_eq (sp : FlowSpec) (flow : Nat) :
    sp.fwd flow = sp.routeOver flow false sp.core := by
  simp only [fwd, routeOver, before]
  rw [List.append_assoc]
  rfl

theorem bwd_eq (sp : FlowSpec) (flow : Nat) : sp.bwd flow = sp.routeOver flow true sp.core := rfl

/-- A queue and a pipe always stand before the source ToR. -/
theorem two_lt_before (sp : FlowSpec) (flow : Nat) (rev : Bool) :
    2 < (sp.before flow rev).length := by
  cases rev with
  | false =>
    simp only [before, List.length_append, List.length_cons]
    omega
  | true => exact Nat.lt_succ_self 2

end FlowSpec

/-- Neither a ToR nor a core queue: an element that only keeps or frees a packet. -/
def Hop.Plain (h : Hop) : Prop := (∀ leaf, h ≠ .tor leaf) ∧ ∀ core leaf, h ≠ .qCoreToR core leaf

section Route

variable (sp : FlowSpec) (flow : Nat) (rev : Bool) (core : Nat)

theorem getElem?_append_add {α : Type} (l m : List α) (k : Nat) :
    (l ++ m)[l.length + k]? = m[k]? := by
  rw [List.getElem?_append_right (Nat.le_add_right _ _), Nat.add_sub_cancel_left]

/-- Before the source ToR there are queues and pipes only. -/
theorem before_plain {n : Nat} (hn : n + 1 < (sp.before flow rev).length) :
    ∃ h, (sp.before flow rev)[n]? = some h ∧ h.Plain := by
  obtain ⟨srcToR, sInRack, dstToR, dInRack, core, endhostQ⟩ := sp
  -- the three shapes: with an end-host queue, without one, and the way back
  cases rev with
  | false =>
    cases endhostQ with
    | true =>
      replace hn : n + 1 < 4 := hn
      rcases n with _ | _ | _ | n
      · exact ⟨_, rfl, fun _ => nofun, fun _ _ => nofun⟩
      · exact ⟨_, rfl, fun _ => nofun, fun _ _ => nofun⟩
      · exact ⟨_, rfl, fun _ => nofun, fun _ _ => nofun⟩
      · omega
    | false =>
      replace hn : n + 1 < 3 := hn
      rcases n with _ | _ | n
      · exact ⟨_, rfl, fun _ => nofun, fun _ _ => nofun⟩
      · exact ⟨_, rfl, fun _ => nofun, fun _ _ => nofun⟩
      · omega
  | true =>
    replace hn : n + 1 < 3 := hn
    rcases n with _ | _ | n
    · exact ⟨_, rfl, fun _ => nofun, fun _ _ => nofun⟩
    · exact ⟨_, rfl, fun _ => nofun, fun _ _ => nofun⟩
    · omega

theorem routeOver_before {n : Nat} (hn : n + 1 < (sp.before flow rev).length) :
    ∃ h, (sp.routeOver flow rev core)[n]? = some h ∧ h.Plain := by
  obtain ⟨h, hget, hplain⟩ := before_plain sp flow rev hn
  refine ⟨h, ?_, hplain⟩
  simp only [FlowSpec.routeOver]
  rw [List.getElem?_append_left (by omega)]
  exact hget

theorem routeOver_srcTor {n : Nat} (hn : n + 1 = (sp.before flow rev).length) :
    (sp.routeOver flow rev core)[n]? = some (.tor (sp.srcLeaf rev)) := by
  simp only [FlowSpec.routeOver]
  rw [List.getElem?_append_left (by omega)]
  cases rev with
  | false =>
    -- behind the end-host queue it is the third
    have hn' : n = (sp.endhost flow).length + 2 := by
      simp only [FlowSpec.before, List.length_append, List.length_cons, List.length_nil] at hn
      omega
    rw [hn']
    exact getElem?_append_add (sp.endhost flow) _ 2
  | true =>
    obtain rfl : n = 2 := Nat.succ.inj hn
    rfl

theorem routeOver_core {k : Nat} (hk : k < 4) :
    (sp.routeOver flow rev core)[(sp.before flow rev).length + k]? =
      (coreHops core (sp.srcLeaf rev) (sp.dstLeaf rev))[k]? := by
  simp only [FlowSpec.routeOver]
  rw [getElem?_append_add]
  exact List.getElem?_append_left hk

theorem routeOver_after (k : Nat) :
    (sp.routeOver flow rev core)[(sp.before flow rev).length + (4 + k)]? =
      (sp.after flow rev)[k]? := by
  simp only [FlowSpec.routeOver]
  rw [getElem?_append_add]
  exact getElem?_append_add (coreHops core _ _) _ k

theorem routeOver_length :
    (sp.routeOver flow rev core).length = (sp.before flow rev).length + 8 := by
  simp only [FlowSpec.routeOver, List.length_append]
  cases rev with
  | false => rfl
  | true => rfl

theorem after_zero : (sp.after flow rev)[0]? = some (.tor (sp.dstLeaf rev)) := by
  cases rev with
  | false => rfl
  | true => rfl

/-- Behind the destination ToR there are no ToRs and no core queues. -/
theorem after_succ {k : Nat} {h : Hop} (hh : (sp.after flow rev)[k + 1]? = some h) :
    h.Plain := by
  cases rev with
  | false =>
    rcases k with _ | _ | _ | k
    · cases hh
      exact ⟨fun _ => nofun, fun _ _ => nofun⟩
    · cases hh
      exact ⟨fun _ => nofun, fun _ _ => nofun⟩
    · cases hh
      exact ⟨fun _ => nofun, fun _ _ => nofun⟩
    · cases hh
  | true =>
    rcases k with _ | _ | _ | k
    · cases hh
      exact ⟨fun _ => nofun, fun _ _ => nofun⟩
    · cases hh
      exact ⟨fun _ => nofun, fun _ _ => nofun⟩
    · cases hh
      exact ⟨fun _ => nofun, fun _ _ => nofun⟩
    · cases hh

/-- The bare offset of `asSrcToR` finds the destination ToR. -/
theorem routeOver_dstTor :
    (sp.routeOver flow rev core)[(sp.routeOver flow rev core).length - 4]? =
      some (.tor (sp.dstLeaf rev)) := by
  have hlen : (sp.routeOver flow rev core).length - 4 = (sp.before flow rev).length + (4 + 0) := by
    rw [routeOver_length]
    omega
  rw [hlen, routeOver_after]
  exact after_zero sp flow rev

/-- `updateRoute` at the source ToR replaces the four hops of the core. -/
theorem updateRoute_routeOver {core' : Nat} {v : Vxlan} (hsrc : v.src = sp.srcLeaf rev)
    (hdst : v.dst = sp.dstLeaf rev) :
    updateRoute (sp.routeOver flow rev core) (sp.before flow rev).length core' v =
      sp.routeOver flow rev core' := by
  simp only [updateRoute, FlowSpec.routeOver]
  rw [hsrc, hdst]
  generalize sp.before flow rev = before
  simp [coreHops]

/-- What is left of the core hops behind hop number `k` of them. -/
theorem routeOver_remaining {k : Nat} (hk : k ≤ 4) :
    ((sp.routeOver flow rev core).drop ((sp.before flow rev).length + k)).take (4 - k) =
      (coreHops core (sp.srcLeaf rev) (sp.dstLeaf rev)).drop k := by
  simp only [FlowSpec.routeOver]
  rw [List.drop_length_add_append, List.drop_append_of_le_length hk]
  exact List.take_left' (List.length_drop ..)

end Route

/-! ## What holds in every run -/

namespace State

/-- How the flow of a packet was created. -/
def specOf (s : State) (p : Pkt) : FlowSpec := s.specs p.flow

/-- The part of its route before a packet's source ToR, that ToR included. -/
def beforeLen (s : State) (p : Pkt) : Nat := ((s.specOf p).before p.flow p.rev).length

end State

/-- A packet has not reached its source ToR, or it has and carries the tags of its leaves;
    how far it got then says what is in its trail and whether it passed the core. -/
structure PktWf (s : State) (p : Pkt) : Prop where
  flow_lt : p.flow < s.nFlows
  unstamped : p.stamped = false →
    p.nexthop < s.beforeLen p ∧ p.passedCore = false ∧ p.trail = []
  stamped : p.stamped = true →
    s.beforeLen p < p.nexthop ∧ p.trail.length = min 4 (p.nexthop - s.beforeLen p) ∧
      (p.passedCore = true ↔ 3 ≤ p.trail.length) ∧
      p.vxlan.src = (s.specOf p).srcLeaf p.rev ∧ p.vxlan.dst = (s.specOf p).dstLeaf p.rev

/-- The shape of the testbed. -/
structure Wf (s : State) : Prop where
  idTor : ∀ leaf, (s.tors leaf).idTor = leaf
  routes : ∀ f < s.nFlows, ∀ rev, ∃ core, s.routes f rev = (s.specs f).routeOver f rev core
  pkts : ∀ p ∈ s.pkts, PktWf s p

/-- A packet's conditions depend on how its flow was created only. -/
theorem PktWf.of_specOf {s t : State} {p : Pkt} (h : PktWf s p) (hlt : p.flow < t.nFlows)
    (hspec : t.specOf p = s.specOf p) : PktWf t p := by
  have hlen : t.beforeLen p = s.beforeLen p := by
    simp only [State.beforeLen]
    rw [hspec]
  exact
    { flow_lt := hlt
      unstamped := by rw [hlen]; exact h.unstamped
      stamped := by rw [hlen, hspec]; exact h.stamped }

theorem PktWf.congr {s t : State} {p : Pkt} (h : PktWf s p) (hn : t.nFlows = s.nFlows)
    (hspecs : t.specs = s.specs) : PktWf t p := by
  apply h.of_specOf
  · rw [hn]
    exact h.flow_lt
  · simp only [State.specOf]
    rw [hspecs]

/-- What is to show of a packet that passed its source ToR, from one of the same flow and
    direction. -/
theorem PktWf.of_stamped {s : State} {p p' : Pkt} (hp : PktWf s p) (hflow : p'.flow = p.flow)
    (hrev : p'.rev = p.rev) (hst : p'.stamped = true) (hlow : s.beforeLen p < p'.nexthop)
    (hlen : p'.trail.length = min 4 (p'.nexthop - s.beforeLen p))
    (hpassed : p'.passedCore = true ↔ 3 ≤ p'.trail.length)
    (hsrc : p'.vxlan.src = (s.specOf p).srcLeaf p.rev)
    (hdst : p'.vxlan.dst = (s.specOf p).dstLeaf p.rev) : PktWf s p' := by
  have hspec : s.specOf p' = s.specOf p := by
    simp only [State.specOf]
    rw [hflow]
  have hbl : s.beforeLen p' = s.beforeLen p := by
    simp only [State.beforeLen]
    rw [hspec, hflow, hrev]
  refine
    { flow_lt := by rw [hflow]; exact hp.flow_lt
      unstamped := fun hst' => ?_
      stamped := fun _ => ?_ }
  · rw [hst] at hst'
    cases hst'
  · rw [hbl, hspec, hrev]
    exact ⟨hlow, hlen, hpassed, hsrc, hdst⟩

/-- An update of one ToR that keeps its number. -/
theorem idTor_update {tors : Nat → ToR} (h : ∀ l, (tors l).idTor = l) {leaf : Nat} {tor : ToR}
    (htor : tor.idTor = leaf) (l : Nat) : (Function.update tors leaf tor l).idTor = l := by
  by_cases hl : l = leaf
  · rw [hl, Function.update_self]
    exact htor
  · rw [Function.update_of_ne hl]
    exact h l

theorem wf_built (endhostQ : Bool) (nxtLbTag : Nat → Nat → Nat) :
    Wf (built endhostQ nxtLbTag) where
  idTor := fun _ => rfl
  routes := fun f hf => absurd hf (Nat.not_lt_zero f)
  pkts := fun _ hp => absurd hp List.not_mem_nil

theorem wf_init (nxtLbTag : Nat → Nat → Nat) : Wf (init nxtLbTag) := wf_built true nxtLbTag

/-! ## One step of a packet -/

/-- How a packet moves: what it becomes (`none` when it is dropped or freed), and the state
    it leaves behind. -/
inductive Moved (s : State) (rand : Nat) (p : Pkt) : State → Option Pkt → Prop
  /-- It is handed on before its source ToR or behind its destination ToR. -/
  | plain {hop : Hop} {out : Option Pkt} (hhop : (s.route p)[p.nexthop]? = some hop)
      (hplain : hop.Plain) (hdone : p.stamped = true → p.trail.length = 4)
      (hout : ∀ p' ∈ out, p' = { p with nexthop := p.nexthop + 1 }.handed hop) :
      Moved s rand p { s with pkts := s.pkts ++ out.toList } out
  /-- It is handed on between the ToRs. -/
  | core {hop : Hop} {out : Option Pkt} (hhop : (s.route p)[p.nexthop]? = some hop)
      (hne : ∀ leaf, hop ≠ .tor leaf) (hstamped : p.stamped = true)
      (hlt : p.trail.length < 4)
      (hout : ∀ p' ∈ out, p'.flow = p.flow ∧ p'.rev = p.rev ∧ p'.stamped = true ∧
        p'.nexthop = p.nexthop + 1 ∧ p'.trail = p.trail ++ [hop] ∧
        p'.vxlan.src = p.vxlan.src ∧ p'.vxlan.dst = p.vxlan.dst ∧
        p'.vxlan.lbtag = p.vxlan.lbtag ∧ p'.vxlan.fbLbtag = p.vxlan.fbLbtag ∧
        (p'.ceCore = p.ceCore ∨ ∃ core leaf, hop = .qCoreToR core leaf ∧ p'.ceCore = some core) ∧
        (∀ core leaf, hop = .qCoreToR core leaf → p'.ceCore = some core) ∧
        (p'.passedCore = true ↔ 3 ≤ p'.trail.length)) :
      Moved s rand p { s with pkts := s.pkts ++ out.toList } out
  /-- It passes its destination ToR. -/
  | dst {leaf : Nat} {hop : Hop} {out : Option Pkt}
      (hhop : (s.route p)[p.nexthop]? = some (.tor leaf)) (hstamped : p.stamped = true)
      (hdone : p.trail.length = 4) (hpassed : p.passedCore = true)
      (hout : ∀ p' ∈ out, p' = { p with nexthop := p.nexthop + 2 }.handed hop) :
      Moved s rand p { s.asDstToR leaf p with pkts := s.pkts ++ out.toList } out
  /-- It passes its source ToR, which rewrites its route. -/
  | src {leaf dst : Nat} {out : Option Pkt} {v : Vxlan}
      (hhop : (s.route p)[p.nexthop]? = some (.tor leaf)) (hstamped : p.stamped = false)
      (hpassed : p.passedCore = false) (hdst : s.dstTor p = some dst)
      (hv : v = ((s.tors leaf).asSrcToR N_CORE rand dst).2)
      (hout : ∀ p' ∈ out, p'.flow = p.flow ∧ p'.rev = p.rev ∧ p'.stamped = true ∧
        p'.nexthop = p.nexthop + 2 ∧ p'.trail = [.qToRCore v.lbtag v.src] ∧ p'.vxlan = v ∧
        p'.passedCore = false) :
      Moved s rand p
        { s with
          tors := Function.update s.tors leaf ((s.tors leaf).asSrcToR N_CORE rand dst).1
          routes := Function.update s.routes p.flow
            (Function.update (s.routes p.flow) p.rev
              ((s.specOf p).routeOver p.flow p.rev v.lbtag))
          pkts := s.pkts ++ out.toList } out

theorem enqueue_cases (s : State) (p : Pkt) (h : Hop) :
    ∃ out : Option Pkt, s.enqueue p h = { s with pkts := s.pkts ++ out.toList } ∧
      ∀ p' ∈ out, p' = p.handed h := by
  simp only [State.enqueue]
  split
  next maxsize _ =>
    split_ifs
    · exact ⟨none, by simp, fun _ hp => by cases hp⟩
    · exact ⟨some (p.handed h), rfl, fun _ hp => by cases hp; rfl⟩
  next => exact ⟨some (p.handed h), rfl, fun _ hp => by cases hp; rfl⟩

/-- What an element does that is neither a ToR nor a core queue. -/
theorem receiveAt_plain {s t : State} {ce : Nat} {p : Pkt} {h : Hop} (hplain : h.Plain)
    (hrecv : s.receiveAt ce p h = some t) :
    ∃ out : Option Pkt, t = { s with pkts := s.pkts ++ out.toList } ∧
      ∀ p' ∈ out, p' = p.handed h := by
  cases h with
  | tor leaf => exact absurd rfl (hplain.1 leaf)
  | qCoreToR core leaf => exact absurd rfl (hplain.2 core leaf)
  | src flow =>
    cases hrecv
    exact ⟨none, by simp, fun _ hp => by cases hp⟩
  | snk flow =>
    cases hrecv
    exact ⟨none, by simp, fun _ hp => by cases hp⟩
  | _ =>
    cases hrecv
    exact enqueue_cases s p _

/-- What a core queue does: the packet has passed the core, and its congestion field says how
    loaded that core was. -/
theorem receiveAt_coreQueue {s t : State} {ce core leaf : Nat} {p : Pkt}
    (hrecv : s.receiveAt ce p (.qCoreToR core leaf) = some t) :
    ∃ out : Option Pkt, t = { s with pkts := s.pkts ++ out.toList } ∧
      ∀ p' ∈ out, p' = { p with
        vxlan := { p.vxlan with ce := ce }
        passedCore := true
        ceCore := some core }.handed (.qCoreToR core leaf) := by
  obtain ⟨p₁, hp₁, rfl⟩ := Option.map_eq_some_iff.mp hrecv
  simp only [State.stampCe] at hp₁
  split at hp₁
  · cases hp₁
    exact enqueue_cases s _ _
  · cases hp₁

/-- One hop that is not a ToR. -/
theorem sendOn_hop {s : State} {rand ce fuel : Nat} {p : Pkt} {hop : Hop}
    (hhop : (s.route p)[p.nexthop]? = some hop) (hne : ∀ leaf, hop ≠ .tor leaf) :
    s.sendOn rand ce (fuel + 1) p = s.receiveAt ce { p with nexthop := p.nexthop + 1 } hop := by
  rw [State.sendOn, hhop]
  cases hop with
  | tor leaf => exact absurd rfl (hne leaf)
  | _ => rfl

/-- A ToR on the way, for a packet that passed the core. -/
theorem sendOn_dstTor {s : State} {rand ce fuel leaf : Nat} {p : Pkt}
    (hhop : (s.route p)[p.nexthop]? = some (.tor leaf)) (hpassed : p.passedCore = true) :
    s.sendOn rand ce (fuel + 1) p =
      (s.asDstToR leaf { p with nexthop := p.nexthop + 1 }).sendOn rand ce fuel
        { p with nexthop := p.nexthop + 1 } := by
  rw [State.sendOn, hhop]
  simp only [hpassed, if_true]

/-- A ToR on the way, for a packet that did not. -/
theorem sendOn_srcTor {s : State} {rand ce fuel leaf : Nat} {p : Pkt}
    (hhop : (s.route p)[p.nexthop]? = some (.tor leaf)) (hpassed : p.passedCore = false) :
    s.sendOn rand ce (fuel + 1) p =
      (s.asSrcToR rand leaf { p with nexthop := p.nexthop + 1 }).bind fun r =>
        r.1.sendOn rand ce fuel r.2 := by
  rw [State.sendOn, hhop]
  simp only [hpassed, Bool.false_eq_true, if_false]

section SendOn

variable {s t : State} {rand ce : Nat} {p : Pkt}

/-- The route of a packet, over some core. -/
theorem Wf.route_eq (h : Wf s) (hp : PktWf s p) :
    ∃ core, s.route p = (s.specOf p).routeOver p.flow p.rev core :=
  h.routes p.flow hp.flow_lt p.rev

/-- The first leg: before the source ToR. -/
theorem sendOn_before (h : Wf s) (hp : PktWf s p) (hst : p.stamped = false)
    (hn : p.nexthop + 1 < s.beforeLen p) {fuel : Nat}
    (hsend : s.sendOn rand ce (fuel + 1) p = some t) :
    ∃ out, Moved s rand p t out ∧ ∀ p' ∈ out, PktWf s p' := by
  obtain ⟨core, hroute⟩ := h.route_eq hp
  obtain ⟨hop, hhop, hplain⟩ := routeOver_before (s.specOf p) p.flow p.rev core hn
  rw [← hroute] at hhop
  rw [sendOn_hop hhop hplain.1] at hsend
  -- before the source ToR every hop is a plain one
  obtain ⟨out, rfl, hout⟩ := receiveAt_plain hplain hsend
  refine ⟨out, .plain hhop hplain (fun hst' => ?_) hout, fun p' hp' => ?_⟩
  · rw [hst] at hst'
    cases hst'
  · rw [hout p' hp']
    obtain ⟨-, hpassed, htrail⟩ := hp.unstamped hst
    refine
      { flow_lt := hp.flow_lt
        unstamped := fun _ => ⟨hn, hpassed, ?_⟩
        stamped := fun hst' => ?_ }
    · show (if p.stamped ∧ p.trail.length < 4 then p.trail ++ [hop] else p.trail) = []
      rw [hst, htrail]
      rfl
    · replace hst' : p.stamped = true := hst'
      rw [hst] at hst'
      cases hst'

/-- Between the ToRs. -/
theorem sendOn_core (h : Wf s) (hp : PktWf s p) (hst : p.stamped = true)
    (hlt : p.trail.length < 4) {fuel : Nat}
    (hsend : s.sendOn rand ce (fuel + 1) p = some t) :
    ∃ out, Moved s rand p t out ∧ ∀ p' ∈ out, PktWf s p' := by
  obtain ⟨core, hroute⟩ := h.route_eq hp
  obtain ⟨hlow, hlen, hpassed, hsrc, hdst⟩ := hp.stamped hst
  have hn : p.nexthop = s.beforeLen p + p.trail.length := by omega
  have hat := routeOver_core (s.specOf p) p.flow p.rev core hlt
  rw [← hroute] at hat
  replace hat : (s.route p)[p.nexthop]? = (coreHops core ((s.specOf p).srcLeaf p.rev)
    ((s.specOf p).dstLeaf p.rev))[p.trail.length]? := by rw [hn]; exact hat
  -- what the packet is after it, whichever of the four elements takes it
  have hwf : ∀ p' : Pkt, p'.flow = p.flow → p'.rev = p.rev → p'.stamped = true →
      p'.nexthop = p.nexthop + 1 → p'.trail.length = p.trail.length + 1 →
      p'.vxlan.src = p.vxlan.src → p'.vxlan.dst = p.vxlan.dst →
      (p'.passedCore = true ↔ 3 ≤ p'.trail.length) → PktWf s p' := by
    intro p' hf hr hs hn' htr hs' hd' hpc
    exact hp.of_stamped hf hr hs (by omega) (by omega) hpc (hs'.trans hsrc) (hd'.trans hdst)
  by_cases hthird : p.trail.length = 2
  · -- the core queue, whose next hop is the destination ToR
    rw [hthird] at hat
    replace hat : (s.route p)[p.nexthop]? =
      some (.qCoreToR core ((s.specOf p).dstLeaf p.rev)) := hat
    rw [sendOn_hop hat (fun _ => nofun)] at hsend
    obtain ⟨out, rfl, hout⟩ := receiveAt_coreQueue hsend
    have hfields : ∀ p' ∈ out, p'.flow = p.flow ∧ p'.rev = p.rev ∧ p'.stamped = true ∧
        p'.nexthop = p.nexthop + 1 ∧
        p'.trail = p.trail ++ [.qCoreToR core ((s.specOf p).dstLeaf p.rev)] ∧
        p'.vxlan.src = p.vxlan.src ∧ p'.vxlan.dst = p.vxlan.dst ∧
        p'.vxlan.lbtag = p.vxlan.lbtag ∧ p'.vxlan.fbLbtag = p.vxlan.fbLbtag ∧
        p'.ceCore = some core ∧ p'.passedCore = true := by
      intro p' hp'
      rw [hout p' hp']
      refine ⟨rfl, rfl, hst, rfl, ?_, rfl, rfl, rfl, rfl, rfl, rfl⟩
      exact if_pos ⟨hst, hlt⟩
    refine ⟨out, .core hat (fun _ => nofun) hst hlt fun p' hp' => ?_, fun p' hp' => ?_⟩
    · obtain ⟨hf, hr, hs, hn', htr, hs', hd', htag, hfb, hce, hpc⟩ := hfields p' hp'
      refine ⟨hf, hr, hs, hn', htr, hs', hd', htag, hfb, Or.inr ⟨_, _, rfl, hce⟩, ?_, ?_⟩
      · intro core' leaf' heq'
        cases heq'
        exact hce
      · rw [htr, List.length_append, hthird]
        exact iff_of_true hpc le_rfl
    · obtain ⟨hf, hr, hs, hn', htr, hs', hd', -, -, -, hpc⟩ := hfields p' hp'
      have hlen' : p'.trail.length = p.trail.length + 1 := by
        rw [htr, List.length_append, List.length_singleton]
      exact hwf p' hf hr hs hn' hlen' hs' hd' (iff_of_true hpc (by omega))
  · -- a queue or pipe that only keeps it
    have hplain : ∃ hop, (s.route p)[p.nexthop]? = some hop ∧ hop.Plain := by
      have hcases : p.trail.length = 0 ∨ p.trail.length = 1 ∨ p.trail.length = 3 := by omega
      rcases hcases with h0 | h1 | h3
      · rw [h0] at hat
        exact ⟨_, hat, fun _ => nofun, fun _ _ => nofun⟩
      · rw [h1] at hat
        exact ⟨_, hat, fun _ => nofun, fun _ _ => nofun⟩
      · rw [h3] at hat
        exact ⟨_, hat, fun _ => nofun, fun _ _ => nofun⟩
    obtain ⟨hop, hhop, hplain⟩ := hplain
    rw [sendOn_hop hhop hplain.1] at hsend
    obtain ⟨out, rfl, hout⟩ := receiveAt_plain hplain hsend
    have htr : ∀ p' ∈ out, p'.trail = p.trail ++ [hop] := by
      intro p' hp'
      rw [hout p' hp']
      exact if_pos ⟨hst, hlt⟩
    have hpc : ∀ p' ∈ out, (p'.passedCore = true ↔ 3 ≤ p'.trail.length) := by
      intro p' hp'
      rw [htr p' hp', List.length_append, List.length_singleton, hout p' hp']
      show p.passedCore = true ↔ _
      rw [hpassed]
      omega
    refine ⟨out, .core hhop hplain.1 hst hlt fun p' hp' => ?_, fun p' hp' => ?_⟩
    · have hpc' := hpc p' hp'
      have htr' := htr p' hp'
      rw [hout p' hp'] at hpc' htr' ⊢
      refine ⟨rfl, rfl, hst, rfl, htr', rfl, rfl, rfl, rfl, Or.inl rfl, ?_, hpc'⟩
      intro core' leaf' heq'
      exact absurd heq' (hplain.2 core' leaf')
    · have hlen' : p'.trail.length = p.trail.length + 1 := by
        rw [htr p' hp', List.length_append, List.length_singleton]
      have hpc' := hpc p' hp'
      rw [hout p' hp'] at hlen' hpc' ⊢
      exact hwf _ rfl rfl hst rfl hlen' rfl rfl hpc'

/-- Through the source ToR. -/
theorem sendOn_src (h : Wf s) (hp : PktWf s p) (hst : p.stamped = false)
    (hn : p.nexthop + 1 = s.beforeLen p) {fuel : Nat}
    (hsend : s.sendOn rand ce (fuel + 2) p = some t) :
    ∃ out, Moved s rand p t out ∧ ∀ p' ∈ out, PktWf s p' := by
  obtain ⟨core, hroute⟩ := h.route_eq hp
  obtain ⟨-, hpassed, -⟩ := hp.unstamped hst
  have hhop := routeOver_srcTor (s.specOf p) p.flow p.rev core hn
  rw [← hroute] at hhop
  have hdst : s.dstTor p = some ((s.specOf p).dstLeaf p.rev) := by
    simp only [State.dstTor]
    rw [hroute, routeOver_dstTor]
  rw [sendOn_srcTor hhop hpassed] at hsend
  obtain ⟨⟨s₁, p₁⟩, hsrc, hsend⟩ := Option.bind_eq_some_iff.mp hsend
  obtain ⟨dst, hdst', heq⟩ := Option.map_eq_some_iff.mp hsrc
  replace hdst' : s.dstTor p = some dst := hdst'
  obtain rfl : (s.specOf p).dstLeaf p.rev = dst := Option.some.inj (hdst.symm.trans hdst')
  -- the tags name the leaves of the route, and the route is rewritten to their core
  let v := ((s.tors ((s.specOf p).srcLeaf p.rev)).asSrcToR N_CORE rand
    ((s.specOf p).dstLeaf p.rev)).2
  have hvsrc : v.src = (s.specOf p).srcLeaf p.rev := h.idTor _
  have hvdst : v.dst = (s.specOf p).dstLeaf p.rev := rfl
  have hupd : updateRoute (s.route p) (p.nexthop + 1) v.lbtag v =
      (s.specOf p).routeOver p.flow p.rev v.lbtag := by
    rw [hn, hroute]
    exact updateRoute_routeOver (s.specOf p) p.flow p.rev core hvsrc hvdst
  cases heq
  replace hsend : State.sendOn rand ce (fuel + 1)
      { s with
        tors := Function.update s.tors ((s.specOf p).srcLeaf p.rev)
          ((s.tors ((s.specOf p).srcLeaf p.rev)).asSrcToR N_CORE rand
            ((s.specOf p).dstLeaf p.rev)).1
        routes := Function.update s.routes p.flow
          (Function.update (s.routes p.flow) p.rev
            (updateRoute (s.route p) (p.nexthop + 1) v.lbtag v)) }
      { p with nexthop := p.nexthop + 1, vxlan := v, stamped := true, trail := [], ceCore := none }
      = some t := hsend
  rw [hupd] at hsend
  have hplain : Hop.Plain (.qToRCore v.lbtag v.src) := ⟨fun _ => nofun, fun _ _ => nofun⟩
  have hfirst : ((s.specOf p).routeOver p.flow p.rev v.lbtag)[p.nexthop + 1]? =
      some (.qToRCore v.lbtag v.src) := by
    rw [hn, hvsrc]
    exact routeOver_core (s.specOf p) p.flow p.rev v.lbtag (Nat.zero_lt_succ 3)
  rw [@sendOn_hop _ rand ce fuel _ (.qToRCore v.lbtag v.src) ?_ hplain.1] at hsend
  · obtain ⟨out, rfl, hout⟩ := receiveAt_plain hplain hsend
    have hfields : ∀ p' ∈ out, p'.flow = p.flow ∧ p'.rev = p.rev ∧ p'.stamped = true ∧
        p'.nexthop = p.nexthop + 2 ∧ p'.trail = [.qToRCore v.lbtag v.src] ∧ p'.vxlan = v ∧
        p'.passedCore = false := by
      intro p' hp'
      rw [hout p' hp']
      exact ⟨rfl, rfl, rfl, rfl, rfl, rfl, hpassed⟩
    refine ⟨out, .src hhop hst hpassed hdst rfl hfields, fun p' hp' => ?_⟩
    obtain ⟨hf, hr, hs, hn', htr, hv, hpc⟩ := hfields p' hp'
    refine hp.of_stamped hf hr hs (by omega) ?_ ?_ (by rw [hv]; exact hvsrc)
      (by rw [hv]; exact hvdst)
    · rw [htr]
      show 1 = min 4 (p'.nexthop - s.beforeLen p)
      omega
    · rw [htr, hpc]
      simp
  · unfold State.route
    simp only [Function.update_self]
    exact hfirst

/-- Through the destination ToR, and behind it. -/
theorem sendOn_after (h : Wf s) (hp : PktWf s p) (hst : p.stamped = true)
    (hdone : p.trail.length = 4) {fuel : Nat}
    (hsend : s.sendOn rand ce (fuel + 2) p = some t) :
    ∃ out, Moved s rand p t out ∧ ∀ p' ∈ out, PktWf s p' := by
  obtain ⟨core, hroute⟩ := h.route_eq hp
  obtain ⟨hlow, hlen, hpassed, hsrc, hdst⟩ := hp.stamped hst
  obtain ⟨k, hk⟩ := Nat.exists_eq_add_of_le (show s.beforeLen p + 4 ≤ p.nexthop by omega)
  have hafter := fun j => routeOver_after (s.specOf p) p.flow p.rev core j
  rw [← hroute] at hafter
  -- only `loc` and `nexthop` change behind the core
  have hwf : ∀ (hop : Hop) (m : Nat),
      PktWf s ({ p with nexthop := p.nexthop + m }.handed hop) := by
    intro hop m
    have htr : ({ p with nexthop := p.nexthop + m }.handed hop).trail = p.trail :=
      if_neg fun hlt => by have hlt' : p.trail.length < 4 := hlt.2; omega
    refine hp.of_stamped rfl rfl hst ?_ ?_ ?_ hsrc hdst
    · show s.beforeLen p < p.nexthop + m
      omega
    · rw [htr]
      show p.trail.length = min 4 (p.nexthop + m - s.beforeLen p)
      omega
    · rw [htr]
      exact hpassed
  cases k with
  | zero =>
    have hhop : (s.route p)[p.nexthop]? = some (.tor ((s.specOf p).dstLeaf p.rev)) := by
      have hzero := hafter 0
      rw [after_zero] at hzero
      rw [hk]
      exact hzero
    have hpc : p.passedCore = true := hpassed.mpr (by omega)
    rw [sendOn_dstTor hhop hpc] at hsend
    cases hat : (s.route p)[p.nexthop + 1]? with
    | none =>
      rw [State.sendOn] at hsend
      simp only [State.route, State.asDstToR] at hsend hat
      rw [hat] at hsend
      cases hsend
    | some hop =>
      have hplain : hop.Plain := by
        have hone := hafter 1
        rw [show (s.specOf p |>.before p.flow p.rev).length + (4 + 1) = p.nexthop + 1 from by
          rw [hk]; rfl, hat] at hone
        exact after_succ (s.specOf p) p.flow p.rev hone.symm
      rw [sendOn_hop hat hplain.1] at hsend
      obtain ⟨out, rfl, hout⟩ := receiveAt_plain hplain hsend
      refine ⟨out, .dst hhop hst hdone hpc hout, fun p' hp' => ?_⟩
      rw [hout p' hp']
      exact hwf hop 2
  | succ k =>
    cases hat : (s.route p)[p.nexthop]? with
    | none =>
      rw [State.sendOn, hat] at hsend
      cases hsend
    | some hop =>
      have hplain : hop.Plain := by
        have hsucc := hafter (k + 1)
        rw [show (s.specOf p |>.before p.flow p.rev).length + (4 + (k + 1)) = p.nexthop from by
          rw [hk, Nat.add_assoc]; rfl, hat] at hsucc
        exact after_succ (s.specOf p) p.flow p.rev hsucc.symm
      rw [sendOn_hop hat hplain.1] at hsend
      obtain ⟨out, rfl, hout⟩ := receiveAt_plain hplain hsend
      refine ⟨out, .plain hat hplain (fun _ => hdone) hout, fun p' hp' => ?_⟩
      rw [hout p' hp']
      exact hwf hop 1

/-- `sendOn` of a packet, wherever it is. -/
theorem sendOn_moved (h : Wf s) (hp : PktWf s p)
    (hsend : s.sendOn rand ce (s.route p).length p = some t) :
    ∃ out, Moved s rand p t out ∧ ∀ p' ∈ out, PktWf s p' := by
  obtain ⟨core, hroute⟩ := h.route_eq hp
  have hfuel : ∃ fuel, (s.route p).length = fuel + 2 := by
    rw [hroute, routeOver_length]
    exact ⟨_, rfl⟩
  obtain ⟨fuel, hfuel⟩ := hfuel
  rw [hfuel] at hsend
  cases hst : p.stamped with
  | false =>
    have hlt := (hp.unstamped hst).1
    by_cases hn : p.nexthop + 1 = s.beforeLen p
    · exact sendOn_src h hp hst hn hsend
    · exact sendOn_before h hp hst (by omega) hsend
  | true =>
    have hlen := (hp.stamped hst).2.1
    by_cases hlt : p.trail.length < 4
    · exact sendOn_core h hp hst hlt hsend
    · exact sendOn_after h hp hst (by omega) hsend

end SendOn

/-! ## The shape is kept -/

theorem wf_moved {s t : State} {rand : Nat} {p : Pkt} {out : Option Pkt} (h : Wf s)
    (hp : PktWf s p) (hout : ∀ p' ∈ out, PktWf s p') (hmoved : Moved s rand p t out) : Wf t := by
  have hpkts : ∀ q ∈ s.pkts ++ out.toList, PktWf s q := by
    intro q hq
    rcases List.mem_append.mp hq with hq | hq
    · exact h.pkts q hq
    · exact hout q (Option.mem_toList.mp hq)
  -- only a source ToR writes a route, and it writes one that passes a core
  cases hmoved with
  | plain =>
    exact
      { idTor := h.idTor
        routes := h.routes
        pkts := fun q hq => (hpkts q hq).congr rfl rfl }
  | core =>
    exact
      { idTor := h.idTor
        routes := h.routes
        pkts := fun q hq => (hpkts q hq).congr rfl rfl }
  | @dst leaf =>
    exact
      { idTor := idTor_update h.idTor (h.idTor leaf)
        routes := h.routes
        pkts := fun q hq => (hpkts q hq).congr rfl rfl }
  | @src leaf dst _ v hhop _ _ _ _ _ =>
    refine
      { idTor := idTor_update h.idTor (h.idTor leaf)
        routes := fun f hf rev => ?_
        pkts := fun q hq => (hpkts q hq).congr rfl rfl }
    show ∃ core, Function.update s.routes p.flow _ f rev = (s.specs f).routeOver f rev core
    by_cases hfp : f = p.flow
    · subst hfp
      rw [Function.update_self]
      by_cases hr : rev = p.rev
      · -- the one route that the ToR writes
        subst hr
        rw [Function.update_self]
        exact ⟨v.lbtag, rfl⟩
      · rw [Function.update_of_ne hr]
        exact h.routes _ hp.flow_lt rev
    · rw [Function.update_of_ne hfp]
      exact h.routes f hf rev

/-- A new packet is before its source ToR. -/
theorem pktWf_new {s : State} {flow : Nat} (hf : flow < s.nFlows) (rev : Bool) (size : Nat)
    (old : Vxlan) :
    PktWf s (Pkt.new flow rev size old) ∧
      0 + 1 < s.beforeLen (Pkt.new flow rev size old) := by
  have hlen : 0 + 1 < s.beforeLen (Pkt.new flow rev size old) :=
    Nat.lt_of_succ_lt (FlowSpec.two_lt_before _ flow rev)
  exact
    ⟨{ flow_lt := hf
       unstamped := fun _ => ⟨Nat.lt_of_succ_lt hlen, rfl, rfl⟩
       stamped := fun hst => by cases hst }, hlen⟩

/-- What a departure is: the oldest packet of an element moves. -/
theorem depart_cases {s t : State} {i rand ce : Nat} (h : Wf s)
    (hstep : step s (.depart i rand ce) = some t) :
    ∃ p out, s.pkts[i]? = some p ∧ PktWf s p ∧ (∀ p' ∈ out, PktWf s p') ∧
      Moved { s with pkts := s.pkts.eraseIdx i } rand p t out := by
  obtain ⟨p, hp, hsend⟩ := Option.bind_eq_some_iff.mp hstep
  split_ifs at hsend
  have hpwf := h.pkts p (List.mem_of_getElem? hp)
  have hrest : Wf { s with pkts := s.pkts.eraseIdx i } :=
    { idTor := h.idTor
      routes := h.routes
      pkts := fun q hq => (h.pkts q (List.mem_of_mem_eraseIdx hq)).congr rfl rfl }
  obtain ⟨out, hmoved, hout⟩ := sendOn_moved hrest (hpwf.congr rfl rfl) hsend
  exact ⟨p, out, hp, hpwf, fun p' hp' => (hout p' hp').congr rfl rfl, hmoved⟩

/-- What an end host sends is handed to the first element of its route. -/
theorem emit_cases {s t : State} {flow size rand ce : Nat} {rev : Bool} {old : Vxlan}
    (h : Wf s) (hstep : step s (.emit flow rev size old rand ce) = some t) :
    ∃ out : Option Pkt, t = { s with pkts := s.pkts ++ out.toList } ∧
      (∀ p' ∈ out, PktWf s p' ∧ p'.stamped = false) := by
  simp only [step] at hstep
  split_ifs at hstep with hf
  obtain ⟨hp, hlen⟩ := pktWf_new hf rev size old
  obtain ⟨core, hroute⟩ := h.route_eq hp
  obtain ⟨hop, hhop, hplain⟩ :=
    routeOver_before (s.specOf (Pkt.new flow rev size old)) flow rev core hlen
  replace hhop : (s.route (Pkt.new flow rev size old))[0]? = some hop := by
    rw [hroute]
    exact hhop
  obtain ⟨out, hmoved, hout⟩ := sendOn_moved h hp hstep
  -- the first hop is a plain one, and the packet keeps its cleared flag
  cases hmoved with
  | plain _ _ _ hp' =>
    refine ⟨out, rfl, fun p' hpm => ⟨hout p' hpm, ?_⟩⟩
    rw [hp' p' hpm]
    rfl
  | core _ _ hst => cases hst
  | dst _ hst => cases hst
  | src hhop' =>
    replace hhop' : (s.route (Pkt.new flow rev size old))[0]? = some (.tor _) := hhop'
    rw [hhop] at hhop'
    exact absurd (Option.some.inj hhop') (hplain.1 _)

theorem wf_createFlow {s t : State} {r₁ r₂ r₃ r₄ r₅ : Nat} (h : Wf s)
    (hstep : step s (.createFlow r₁ r₂ r₃ r₄ r₅) = some t) : Wf t := by
  cases hstep
  refine
    { idTor := h.idTor
      routes := fun f hf rev => ?_
      pkts := fun q hq => ?_ }
  · show ∃ core, Function.update s.routes s.nFlows _ f rev =
      (Function.update s.specs s.nFlows _ f).routeOver f rev core
    by_cases hfn : f = s.nFlows
    · subst hfn
      rw [Function.update_self, Function.update_self]
      cases rev with
      | false => exact ⟨_, FlowSpec.fwd_eq _ _⟩
      | true => exact ⟨_, FlowSpec.bwd_eq _ _⟩
    · rw [Function.update_of_ne hfn, Function.update_of_ne hfn]
      exact h.routes f (lt_of_le_of_ne (Nat.lt_succ_iff.mp hf) hfn) rev
  · -- the packets belong to older flows
    have hq' := h.pkts q hq
    refine hq'.of_specOf (Nat.lt_succ_of_lt hq'.flow_lt) ?_
    exact Function.update_of_ne (Nat.ne_of_lt hq'.flow_lt) _ _

theorem wf_step (s : State) (a : Act) (t : State) (h : Wf s) (hstep : system.step s a = some t) :
    Wf t := by
  cases a with
  | createFlow r₁ r₂ r₃ r₄ r₅ => exact wf_createFlow h hstep
  | emit flow rev size old rand ce =>
    obtain ⟨out, rfl, hout⟩ := emit_cases h hstep
    refine
      { idTor := h.idTor
        routes := h.routes
        pkts := fun q hq => ?_ }
    rcases List.mem_append.mp hq with hq | hq
    · exact (h.pkts q hq).congr rfl rfl
    · exact (hout q (Option.mem_toList.mp hq)).1.congr rfl rfl
  | depart i rand ce =>
    obtain ⟨p, out, -, hp, hout, hmoved⟩ := depart_cases h hstep
    have hrest : Wf { s with pkts := s.pkts.eraseIdx i } :=
      { idTor := h.idTor
        routes := h.routes
        pkts := fun q hq => (h.pkts q (List.mem_of_mem_eraseIdx hq)).congr rfl rfl }
    exact wf_moved hrest (hp.congr rfl rfl) (fun p' hp' => (hout p' hp').congr rfl rfl) hmoved

/-! ## Tags and paths -/

/-- The elements a tagged packet was handed to since its source ToR, followed by those its
    route still has before its destination ToR, are those of the core that its tag names;
    and so is the core queue that wrote its `ce`. -/
def OnPath (s : State) (p : Pkt) : Prop :=
  p.stamped = true →
    p.trail ++ ((s.route p).drop p.nexthop).take (4 - p.trail.length) =
        coreHops p.vxlan.lbtag p.vxlan.src p.vxlan.dst ∧
      (3 ≤ p.trail.length → p.ceCore = some p.vxlan.lbtag)

/-- Agreement of tags and paths: of every packet in the network, and of every metric that a
    destination ToR has read. -/
structure Agrees (s : State) : Prop where
  pkts : ∀ p ∈ s.pkts, OnPath s p
  readings : ∀ r ∈ s.readings, r.2 = some r.1

/-- The ToR that a packet passes as its source ToR picks the core of every packet of the
    same flow and direction that is between its ToRs, with core hops left to take. -/
def KeepsTag (s : State) : Act → Prop
  | .depart i rand _ => ∀ p, s.pkts[i]? = some p → p.passedCore = false →
      ∀ leaf, (s.route p)[p.nexthop]? = some (.tor leaf) → ∀ dst, s.dstTor p = some dst →
        ∀ q ∈ s.pkts, q.flow = p.flow → q.rev = p.rev → q.stamped = true →
          q.trail.length < 4 →
            q.vxlan.lbtag = (s.tors leaf).minCongestedCore N_CORE rand dst
  | _ => True

theorem onPath_congr {s t : State} {p : Pkt} (hroute : t.route p = s.route p) :
    OnPath t p ↔ OnPath s p := by
  simp only [OnPath]
  rw [hroute]

/-- The core hops from any of them on tell the core. -/
theorem coreHops_drop_inj {c c' src dst k : Nat} (hk : k < 4)
    (h : (coreHops c src dst).drop k = (coreHops c' src dst).drop k) : c = c' := by
  have hcases : k = 0 ∨ k = 1 ∨ k = 2 ∨ k = 3 := by omega
  rcases hcases with rfl | rfl | rfl | rfl
  · simp [coreHops] at h
    exact h
  · simp [coreHops] at h
    exact h
  · simp [coreHops] at h
    exact h
  · simp [coreHops] at h
    exact h

section Agreement

variable {s : State} {p : Pkt}

/-- The core hops left to a tagged packet, when its route goes over `core`. -/
theorem remaining_eq (hp : PktWf s p) (hst : p.stamped = true) {core : Nat}
    (hroute : s.route p = (s.specOf p).routeOver p.flow p.rev core) :
    ((s.route p).drop p.nexthop).take (4 - p.trail.length) =
      (coreHops core p.vxlan.src p.vxlan.dst).drop p.trail.length := by
  obtain ⟨hlow, hlen, -, hsrc, hdst⟩ := hp.stamped hst
  rw [hsrc, hdst]
  by_cases hlt : p.trail.length < 4
  · rw [hroute, show p.nexthop = s.beforeLen p + p.trail.length by omega]
    exact routeOver_remaining (s.specOf p) p.flow p.rev core hlt.le
  · have h4 : p.trail.length = 4 := by omega
    rw [h4]
    rfl

/-- A packet with core hops left is on its path exactly when what it was handed to and the
    rest of its route are over the core of its tag. -/
theorem onPath_iff (hp : PktWf s p) (hst : p.stamped = true) {core : Nat}
    (hroute : s.route p = (s.specOf p).routeOver p.flow p.rev core) :
    OnPath s p ↔
      p.trail = (coreHops p.vxlan.lbtag p.vxlan.src p.vxlan.dst).take p.trail.length ∧
        (p.trail.length < 4 → core = p.vxlan.lbtag) ∧
        (3 ≤ p.trail.length → p.ceCore = some p.vxlan.lbtag) := by
  have hlen := (hp.stamped hst).2.1
  simp only [OnPath]
  rw [remaining_eq hp hst hroute]
  constructor
  -- the trail is the first part of the path, so what remains fixes the core
  · intro h
    obtain ⟨hpath, hce⟩ := h hst
    have htake : p.trail =
        (coreHops p.vxlan.lbtag p.vxlan.src p.vxlan.dst).take p.trail.length := by
      rw [← hpath, List.take_left]
    have hdrop : (coreHops core p.vxlan.src p.vxlan.dst).drop p.trail.length =
        (coreHops p.vxlan.lbtag p.vxlan.src p.vxlan.dst).drop p.trail.length := by
      conv_rhs => rw [← hpath, List.drop_left]
    exact ⟨htake, fun hlt => coreHops_drop_inj hlt hdrop, hce⟩
  -- after the fourth hop nothing of the core is left in the route
  · rintro ⟨htake, hcore, hce⟩ -
    refine ⟨?_, hce⟩
    have hdrop : (coreHops core p.vxlan.src p.vxlan.dst).drop p.trail.length =
        (coreHops p.vxlan.lbtag p.vxlan.src p.vxlan.dst).drop p.trail.length := by
      by_cases hlt : p.trail.length < 4
      · rw [hcore hlt]
      · have h4 : p.trail.length = 4 := by omega
        rw [h4]
        rfl
    rw [hdrop]
    exact (congrArg (· ++ (coreHops p.vxlan.lbtag p.vxlan.src p.vxlan.dst).drop p.trail.length)
      htake).trans (List.take_append_drop _ _)

/-- A packet that has left the core hops behind does not depend on its route. -/
theorem onPath_of_done {t : State} {p' : Pkt} (h : OnPath s p)
    (hst : p.stamped = true → p.trail.length = 4) (hst' : p'.stamped = p.stamped)
    (htrail : p'.trail = p.trail) (hv : p'.vxlan = p.vxlan) (hce : p'.ceCore = p.ceCore) :
    OnPath t p' := by
  intro hs
  rw [hst'] at hs
  obtain ⟨hpath, hcore⟩ := h hs
  have h4 := hst hs
  rw [htrail, hv, hce]
  rw [h4] at hpath hcore ⊢
  exact ⟨hpath, hcore⟩

/-- Behind the core nothing is added to the trail. -/
theorem handed_of_done {p : Pkt} {n : Nat} (hst : p.stamped = true → p.trail.length = 4)
    (hop : Hop) :
    ({ p with nexthop := n }.handed hop).trail = p.trail := by
  apply if_neg
  rintro ⟨hs, hlt⟩
  have h4 := hst hs
  replace hlt : p.trail.length < 4 := hlt
  omega

/-- Handed to the next core element of an unchanged route, a packet stays on its path. -/
theorem onPath_core {hop : Hop} (hwf : Wf s) (hp : PktWf s p) (h : OnPath s p)
    (hhop : (s.route p)[p.nexthop]? = some hop) (hst : p.stamped = true)
    (hlt : p.trail.length < 4) {p' : Pkt} (hroute' : s.route p' = s.route p)
    (hn : p'.nexthop = p.nexthop + 1) (htrail : p'.trail = p.trail ++ [hop])
    (hsrc : p'.vxlan.src = p.vxlan.src) (hdst : p'.vxlan.dst = p.vxlan.dst)
    (htag : p'.vxlan.lbtag = p.vxlan.lbtag)
    (hce : p'.ceCore = p.ceCore ∨ ∃ core leaf, hop = .qCoreToR core leaf ∧ p'.ceCore = some core)
    (hce' : ∀ core leaf, hop = .qCoreToR core leaf → p'.ceCore = some core) : OnPath s p' := by
  obtain ⟨core, hroute⟩ := hwf.route_eq hp
  obtain ⟨htake, hcore, hceCore⟩ := (onPath_iff hp hst hroute).mp h
  obtain ⟨hlow, hlen, -⟩ := hp.stamped hst
  obtain ⟨hpath, -⟩ := h hst
  have hlen' : p'.trail.length = p.trail.length + 1 := by
    rw [htrail, List.length_append]
    rfl
  -- the hop taken now is the next one of the path of the tag
  have hget : (coreHops p.vxlan.lbtag p.vxlan.src p.vxlan.dst)[p.trail.length]? = some hop := by
    have hk := routeOver_core (s.specOf p) p.flow p.rev core hlt
    rw [← hroute, ← (hp.stamped hst).2.2.2.1, ← (hp.stamped hst).2.2.2.2, hcore hlt] at hk
    rw [← hk, ← hhop]
    congr 1
    show s.beforeLen p + p.trail.length = p.nexthop
    omega
  intro _
  rw [hroute', hn, htrail, hsrc, hdst, htag, List.append_assoc]
  refine ⟨?_, fun h3 => ?_⟩
  · -- the hop moves from the rest of the route to the trail
    rw [← hpath, List.length_append]
    obtain ⟨hidx, hel⟩ := List.getElem?_eq_some_iff.mp hhop
    have hsub : 4 - p.trail.length = (4 - (p.trail.length + [hop].length)) + 1 := by
      simp only [List.length_singleton]
      omega
    rw [List.drop_eq_getElem_cons hidx, hel, hsub, List.take_succ_cons]
    rfl
  · -- the third hop is the core queue, the fourth keeps what it wrote
    rw [List.length_append, List.length_singleton] at h3
    have hk : p.trail.length = 2 ∨ p.trail.length = 3 := by omega
    rcases hk with hk | hk
    · rw [hk] at hget
      exact hce' _ p.vxlan.dst (Option.some.inj hget).symm
    · rw [hk] at hget
      rcases hce with hce | ⟨c, leaf, hhop', -⟩
      · rw [hce]
        exact hceCore (by omega)
      · rw [hhop'] at hget
        cases Option.some.inj hget

end Agreement

/-! ## One step -/

/-- A step that keeps the routes of the packets keeps the agreement, if the packet that moved
    and the readings agree. -/
theorem Agrees.of_routes {s t : State} (h : Agrees s)
    (hpkts : ∀ q ∈ t.pkts, (q ∈ s.pkts ∧ t.route q = s.route q) ∨ OnPath t q)
    (hread : ∀ r ∈ t.readings, r ∈ s.readings ∨ r.2 = some r.1) : Agrees t where
  pkts := fun q hq => by
    rcases hpkts q hq with ⟨hqs, hroute⟩ | hon
    · exact (onPath_congr hroute).mpr (h.pkts q hqs)
    · exact hon
  readings := fun r hr => by
    rcases hread r hr with hrs | hr
    · exact h.readings r hrs
    · exact hr

/-- The guard asks nothing of a packet whose next hop is not a ToR it passes as its source. -/
theorem keepsTag_of_hop {s : State} {i rand ce : Nat} {p : Pkt} (hp : s.pkts[i]? = some p)
    (h : p.passedCore = false → ∀ leaf, (s.route p)[p.nexthop]? ≠ some (.tor leaf)) :
    KeepsTag s (.depart i rand ce) := by
  intro p' hp' hpassed leaf hleaf
  rw [hp] at hp'
  cases hp'
  exact absurd hleaf (h hpassed leaf)

section Rewritten

variable {s t : State} {p q : Pkt} {core : Nat}

/-- The route that a source ToR wrote for a packet is the route of every packet of that flow
    and direction. -/
theorem route_written (hspecs : t.specs = s.specs)
    (hroutes : t.routes = Function.update s.routes p.flow
      (Function.update (s.routes p.flow) p.rev ((s.specOf p).routeOver p.flow p.rev core)))
    (hf : q.flow = p.flow) (hr : q.rev = p.rev) :
    t.route q = (t.specOf q).routeOver q.flow q.rev core := by
  simp only [State.route, State.specOf]
  rw [hroutes, hspecs, hf, hr, Function.update_self, Function.update_self]
  rfl

/-- The other packets keep theirs. -/
theorem route_kept {route : List Hop}
    (hroutes : t.routes = Function.update s.routes p.flow
      (Function.update (s.routes p.flow) p.rev route))
    (hne : ¬ (q.flow = p.flow ∧ q.rev = p.rev)) : t.route q = s.route q := by
  simp only [State.route]
  rw [hroutes]
  by_cases hf : q.flow = p.flow
  · rw [hf, Function.update_self, Function.update_of_ne fun hr => hne ⟨hf, hr⟩]
  · rw [Function.update_of_ne hf]

end Rewritten

/-- At its source ToR, a packet keeps the agreement exactly when the tags of the others
    between the ToRs name the core it is given. -/
theorem agrees_src {s t : State} {i rand ce leaf dst : Nat} {p : Pkt} {out : Option Pkt}
    {v : Vxlan} (hwf : Wf s) (h : Agrees s) (hi : s.pkts[i]? = some p)
    (hhop : (s.route p)[p.nexthop]? = some (.tor leaf)) (hst : p.stamped = false)
    (hpassed : p.passedCore = false) (hdst : s.dstTor p = some dst)
    (hv : v = ((s.tors leaf).asSrcToR N_CORE rand dst).2)
    (hroutes : t.routes = Function.update s.routes p.flow
      (Function.update (s.routes p.flow) p.rev ((s.specOf p).routeOver p.flow p.rev v.lbtag)))
    (hspecs : t.specs = s.specs) (hn : t.nFlows = s.nFlows) (hread : t.readings = s.readings)
    (hpkts : t.pkts = s.pkts.eraseIdx i ++ out.toList)
    (hout : ∀ p' ∈ out, PktWf s p' ∧ p'.flow = p.flow ∧ p'.rev = p.rev ∧
      p'.trail = [.qToRCore v.lbtag v.src] ∧ p'.vxlan = v) :
    Agrees t ↔ KeepsTag s (.depart i rand ce) := by
  have hself := fun (q : Pkt) (hf : q.flow = p.flow) (hr : q.rev = p.rev) =>
    route_written hspecs hroutes hf hr
  have hpkt : ∀ q : Pkt, PktWf s q → PktWf t q := fun q hq => hq.congr hn hspecs
  constructor
  · intro ht p₀ hp₀ _ leaf' hleaf' dst' hdst' q hq hf hr hqst hqlt
    -- the packet whose departure this is, its ToR and the leaf it goes to
    rw [hi] at hp₀
    cases hp₀
    rw [hhop] at hleaf'
    cases hleaf'
    rw [hdst] at hdst'
    cases hdst'
    have hq' : q ∈ t.pkts := by
      rw [hpkts]
      refine List.mem_append_left _ ((List.mem_eraseIdx_iff_getElem? ..).mpr ?_)
      obtain ⟨j, hj⟩ := List.mem_iff_getElem?.mp hq
      refine ⟨j, fun hji => ?_, hj⟩
      rw [hji, hi] at hj
      cases hj
      rw [hst] at hqst
      cases hqst
    have hon := (onPath_iff (hpkt q (hwf.pkts q hq)) hqst (hself q hf hr)).mp (ht.pkts q hq')
    rw [← hon.2.1 hqlt, hv]
    rfl
  · intro hkeep
    refine h.of_routes (fun q hq => ?_) fun r hr => Or.inl (hread ▸ hr)
    rw [hpkts] at hq
    rcases List.mem_append.mp hq with hq | hq
    · have hqs := List.mem_of_mem_eraseIdx hq
      by_cases hsame : q.flow = p.flow ∧ q.rev = p.rev
      · -- the route of `q` is rewritten, to the core of its tag if it has hops left there
        refine Or.inr fun hqst => ?_
        obtain ⟨core, hroute⟩ := hwf.route_eq (hwf.pkts q hqs)
        have hold := (onPath_iff (hwf.pkts q hqs) hqst hroute).mp (h.pkts q hqs)
        refine (onPath_iff (hpkt q (hwf.pkts q hqs)) hqst (hself q hsame.1 hsame.2)).mpr
          ⟨hold.1, fun hlt => ?_, hold.2.2⟩ hqst
        rw [hkeep p hi hpassed leaf hhop dst hdst q hqs hsame.1 hsame.2 hqst hlt, hv]
        rfl
      · exact Or.inl ⟨hqs, route_kept hroutes hsame⟩
    · -- the packet itself is at the first of the four hops
      obtain ⟨hp', hf, hr, htrail, hvx⟩ := hout q (Option.mem_toList.mp hq)
      refine Or.inr fun hqst => ?_
      refine (onPath_iff (hpkt q hp') hqst (hself q hf hr)).mpr ⟨?_, fun _ => ?_, fun h3 => ?_⟩ hqst
      · rw [htrail, hvx]
        rfl
      · rw [hvx]
      · rw [htrail] at h3
        simp at h3

theorem agrees_step (s : State) (a : Act) (t : State) (hwf : Wf s) (h : Agrees s)
    (hstep : system.step s a = some t) : Agrees t ↔ KeepsTag s a := by
  -- by act; a packet sent on is on its path as before, only a source ToR can spoil others
  cases a with
  | createFlow r₁ r₂ r₃ r₄ r₅ =>
    cases hstep
    refine iff_of_true (h.of_routes (fun q hq => Or.inl ⟨hq, ?_⟩) fun r hr => Or.inl hr) trivial
    have hlt := (hwf.pkts q hq).flow_lt
    show Function.update s.routes s.nFlows _ q.flow q.rev = s.routes q.flow q.rev
    rw [Function.update_of_ne (Nat.ne_of_lt hlt)]
  | emit flow rev size old rand ce =>
    obtain ⟨out, rfl, hout⟩ := emit_cases hwf hstep
    refine iff_of_true (h.of_routes (fun q hq => ?_) fun r hr => Or.inl hr) trivial
    rcases List.mem_append.mp hq with hq | hq
    · exact Or.inl ⟨hq, rfl⟩
    · -- a new packet is not tagged
      refine Or.inr fun hst => ?_
      rw [(hout q (Option.mem_toList.mp hq)).2] at hst
      cases hst
  | depart i rand ce =>
    obtain ⟨p, out, hi, hp, hout, hmoved⟩ := depart_cases hwf hstep
    have hon : OnPath s p := h.pkts p (List.mem_of_getElem? hi)
    cases hmoved with
    | plain hhop hplain hdone hp' =>
      refine iff_of_true (h.of_routes (fun q hq => ?_) fun r hr => Or.inl hr)
        (keepsTag_of_hop hi fun _ leaf hleaf => ?_)
      · rcases List.mem_append.mp hq with hq | hq
        · exact Or.inl ⟨List.mem_of_mem_eraseIdx hq, rfl⟩
        · rw [hp' q (Option.mem_toList.mp hq)]
          exact Or.inr (onPath_of_done hon hdone rfl (handed_of_done hdone _) rfl rfl)
      · exact hplain.1 leaf (Option.some.inj (hhop.symm.trans hleaf))
    | core hhop hne hst hlt hp' =>
      refine iff_of_true (h.of_routes (fun q hq => ?_) fun r hr => Or.inl hr)
        (keepsTag_of_hop hi fun _ leaf hleaf => ?_)
      · rcases List.mem_append.mp hq with hq | hq
        · exact Or.inl ⟨List.mem_of_mem_eraseIdx hq, rfl⟩
        · obtain ⟨hf, hr, -, hn, htrail, hsrc, hdst, htag, -, hce, hce', -⟩ :=
            hp' q (Option.mem_toList.mp hq)
          have hroute : s.route q = s.route p := by
            simp only [State.route]
            rw [hf, hr]
          exact Or.inr ((onPath_congr rfl).mp
            (onPath_core hwf hp hon hhop hst hlt hroute hn htrail hsrc hdst htag hce hce'))
      · exact hne leaf (Option.some.inj (hhop.symm.trans hleaf))
    -- behind the destination ToR the path is complete
    | dst hhop hst hdone hpassed hp' =>
      refine iff_of_true (h.of_routes (fun q hq => ?_) fun r hr => ?_)
        (keepsTag_of_hop hi fun hnot => ?_)
      · rcases List.mem_append.mp hq with hq | hq
        · exact Or.inl ⟨List.mem_of_mem_eraseIdx hq, rfl⟩
        · have hdone' : p.stamped = true → p.trail.length = 4 := fun _ => hdone
          rw [hp' q (Option.mem_toList.mp hq)]
          exact Or.inr (onPath_of_done hon hdone' rfl (handed_of_done hdone' _) rfl rfl)
      · -- the ToR reads the metric of a packet that is on its path
        rcases List.mem_cons.mp hr with rfl | hr
        · exact Or.inr ((hon hst).2 (by omega))
        · exact Or.inl hr
      · rw [hpassed] at hnot
        cases hnot
    | src hhop hst hpassed hdst hv hp' =>
      refine agrees_src hwf h hi hhop hst hpassed hdst hv rfl rfl rfl rfl rfl fun q hq => ?_
      obtain ⟨hf, hr, -, -, htrail, hvx, -⟩ := hp' q hq
      exact ⟨hout q hq, hf, hr, htrail, hvx⟩

theorem agrees_init (nxtLbTag : Nat → Nat → Nat) : Agrees (init nxtLbTag) where
  pkts := fun _ hp => absurd hp List.not_mem_nil
  readings := fun _ hr => absurd hr List.not_mem_nil

/-- The runs in which tags and paths agree throughout: those in which every packet that
    passes its source ToR is given the core of the tagged packets of its flow and direction
    that still have core hops to take. -/
theorem agrees_iff_keepsTag (nxtLbTag : Nat → Nat → Nat) (acts : List Act) :
    system.Always Agrees (init nxtLbTag) acts ↔ system.Along KeepsTag (init nxtLbTag) acts :=
  Lts.always_iff_along wf_step agrees_step acts (wf_init nxtLbTag) (agrees_init nxtLbTag)

/-- Two packets of one flow.  The first is tagged with core 0 and waits in the queue to it
    when the second is tagged with core 1. -/
def overtaken : List Act :=
  let old : Vxlan := ⟨0, 0, 0, 0, 0, 0⟩
  [.createFlow 0 0 0 0 0,
    .emit 0 false 1500 old 0 0, .depart 0 0 0, .depart 0 0 0, .depart 0 0 0,
    .emit 0 false 1500 old 0 0, .depart 1 0 0, .depart 1 0 0, .depart 1 1 0,
    .depart 0 0 0, .depart 1 0 5, .depart 1 0 0, .depart 1 0 0]

theorem overtaken_isSome : (system.run (init fun _ _ => 0) overtaken).isSome = true := by
  decide +kernel

/-- The first packet takes three of the hops of core 1, and leaf 1 records the metric of
    core 1 under the tag of core 0. -/
theorem overtaken_misread :
    ∃ t, system.run (init fun _ _ => 0) overtaken = some t ∧ ¬ Agrees t ∧
      (t.tors 1).congFromLeaf 0 0 = 5 ∧ (0, some 1) ∈ t.readings ∧
      ∃ p ∈ t.pkts, p.stamped = true ∧ p.vxlan.lbtag = 0 ∧
        p.trail = [.qToRCore 0 0, .pToRCore 1 0, .qCoreToR 1 1, .pCoreToR 1 1] := by
  have hread : (0, some 1) ∈
      ((system.run (init fun _ _ => 0) overtaken).get overtaken_isSome).readings := by
    decide +kernel
  refine ⟨_, (Option.some_get overtaken_isSome).symm, fun hagrees => ?_, by decide +kernel,
    hread, by decide +kernel⟩
  have hne : some 1 ≠ some 0 := by decide
  exact hne (hagrees.readings _ hread)

end Testbed
end Conga
end DatacenterNetworking
