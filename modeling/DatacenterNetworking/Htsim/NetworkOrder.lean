/-
  DatacenterNetworking.Htsim.NetworkOrder

  Packets on one route do not overtake each other.

  Queues and pipes are first-in-first-out, and an element hands a packet to its next hop
  at the moment it leaves.  So what a hop of a route has taken is what the hop before
  has sent on, in order, less what was dropped (`InOrder`).

  `passes_in_order`: the packets of a route pass each hop of it, and come to the host at
  its end, in the order in which they were made and once each, whatever else is in the
  network and however the routes share its elements.
-/

import DatacenterNetworking.Htsim.NetworkPlaces

namespace DatacenterNetworking
namespace Htsim
namespace Network

variable {T : Topology}

/-- The hops of the route of packet `n`. -/
def hopsOf (s : Network T) (n : Nat) : Option (List Nat) := s.sent[n]?.map fun e => e.route.hops

/-- Those of the packets `ids` that are on a route with these hops. -/
def onRoute (s : Network T) (hops : List Nat) (ids : List Nat) : List Nat :=
  ids.filter fun n => s.hopsOf n = some hops

/-- The packets that element `i` has taken, in order. -/
def taken (s : Network T) (i : Nat) : List Nat := (s.enteredAt i).map fun e => e.2.id

/-- The packets that have left it, in order. -/
def gone (s : Network T) (i : Nat) : List Nat := (s.leftAt i).map fun e => e.2.id

/-- Where hop `k` gets its packets from: they are new, or have left the hop before. -/
def feed (s : Network T) (hops : List Nat) : Nat → List Nat
  | 0 => List.range s.sent.length
  | k + 1 => (hops[k]?.map s.gone).getD []

/-- What leaves an element is what it took, in order, and a hop gets what the hop before it sends
    on, in order; what is being sent on comes next. -/
structure InOrder (fly : Option Packet) (s : Network T) : Prop where
  fifo : ∀ i, s.taken i = s.gone i ++ (s.packetsAt i).map Packet.id
  made : ∀ i, ∀ n ∈ s.taken i, n < s.sent.length
  order : ∀ (R : Route T) k i, R.hops[k]? = some i →
    (s.onRoute R.hops (s.taken i)).Sublist (s.onRoute R.hops (s.feed R.hops k))
  flying : ∀ pkt ∈ fly, ∀ e, s.sent[pkt.id]? = some e → ∀ i, e.route.hops[e.nexthop]? = some i →
    (s.onRoute e.route.hops (s.taken i) ++ [pkt.id]).Sublist
      (s.onRoute e.route.hops (s.feed e.route.hops e.nexthop))

theorem inOrder_start (T : Topology) : InOrder none (start T) where
  fifo := fun i => by
    simp [taken, gone, enteredAt, leftAt, packetsAt, start]
  made := fun i n hn => by
    simp [taken, enteredAt, start] at hn
  order := fun R k i _ => by
    simp [taken, enteredAt, start, onRoute]
  flying := fun pkt hp => by cases hp

theorem onRoute_append (s : Network T) (hops l l' : List Nat) :
    s.onRoute hops (l ++ l') = s.onRoute hops l ++ s.onRoute hops l' :=
  List.filter_append ..

/-- The packets that are known keep their routes. -/
theorem onRoute_congr {s t : Network T} {hops l : List Nat}
    (h : ∀ n ∈ l, t.hopsOf n = s.hopsOf n) : t.onRoute hops l = s.onRoute hops l :=
  List.filter_congr fun n hn => by rw [h n hn]

/-! ### A new packet -/

theorem hopsOf_newpkt {s : Network T} {route : Route T} {size n : Nat} (hn : n < s.sent.length) :
    (s.newpkt route size).hopsOf n = s.hopsOf n := by
  rw [hopsOf, hopsOf, List.getElem?_eq_getElem hn,
    sent_newpkt_of_some (List.getElem?_eq_getElem hn)]

theorem gone_lt {s : Network T} {fly : Option Packet} (h : InOrder fly s) {i n : Nat}
    (hn : n ∈ s.gone i) : n < s.sent.length :=
  h.made i n (by rw [h.fifo]; exact List.mem_append_left _ hn)

theorem inOrder_newpkt {s : Network T} {route : Route T} {flow size : Nat} (h : InOrder none s) :
    InOrder (some { flow := flow, size := size, id := s.sent.length }) (s.newpkt route size) := by
  have htaken : ∀ hops i,
      (s.newpkt route size).onRoute hops (s.taken i) = s.onRoute hops (s.taken i) :=
    fun hops i => onRoute_congr fun n hn => hopsOf_newpkt (h.made i n hn)
  have hgone : ∀ hops i,
      (s.newpkt route size).onRoute hops (s.gone i) = s.onRoute hops (s.gone i) :=
    fun hops i => onRoute_congr fun n hn => hopsOf_newpkt (gone_lt h hn)
  have hrange : ∀ hops, (s.newpkt route size).onRoute hops (List.range s.sent.length) =
      s.onRoute hops (List.range s.sent.length) :=
    fun hops => onRoute_congr fun n hn => hopsOf_newpkt (List.mem_range.mp hn)
  have hlen : (s.newpkt route size).sent.length = s.sent.length + 1 := by
    simp [newpkt]
  refine ⟨h.fifo, fun i n hn => ?_, fun R k i hi => ?_, fun pkt hp e he i hi => ?_⟩
  · rw [hlen]
    exact (h.made i n hn).trans (Nat.lt_succ_self _)
  · rw [show (s.newpkt route size).taken i = s.taken i from rfl, htaken]
    refine (h.order R k i hi).trans ?_
    cases k with
    | zero =>
      rw [feed, feed, hlen, List.range_succ, onRoute_append, hrange]
      exact List.sublist_append_left _ _
    | succ k =>
      rw [feed, feed]
      cases R.hops[k]? with
      | none => exact List.Sublist.refl _
      | some j =>
        rw [Option.map_some, Option.map_some, Option.getD_some, Option.getD_some,
          show (s.newpkt route size).gone j = s.gone j from rfl, hgone]
  · -- the new packet is the last one made
    cases hp
    rw [sent_newpkt_self] at he
    cases he
    have hself : (s.newpkt route size).onRoute route.hops [s.sent.length] = [s.sent.length] := by
      rw [onRoute, List.filter_cons_of_pos, List.filter_nil]
      rw [hopsOf, sent_newpkt_self]
      simp
    rw [show (s.newpkt route size).taken i = s.taken i from rfl, htaken, feed, hlen,
      List.range_succ, onRoute_append, hrange, hself]
    exact (h.order route 0 i hi).append (List.Sublist.refl _)

/-! ### An event -/

section Event

variable {s : Network T} {i now : Nat} {r : (T.kind i).State × List Nat}
  (hr : (T.kind i).component.doNextEvent now (s.elems i) = some r) (l : EventList Nat)
include hr

/-- The histories of the elements: the packet that leaves is the oldest. -/
theorem histories_event : (∀ j, (s.withElem l i r.1).enteredAt j = s.enteredAt j) ∧
    (∀ j ≠ i, (s.withElem l i r.1).leftAt j = s.leftAt j) ∧
    ((T.kind i).sends (s.elems i) = none ∧ (s.withElem l i r.1).leftAt i = s.leftAt i ∧
        (s.withElem l i r.1).packetsAt i = s.packetsAt i ∨
      ∃ p p', (T.kind i).sends (s.elems i) = some p' ∧ p'.id = p.id ∧
        s.packetsAt i = p :: (s.withElem l i r.1).packetsAt i ∧
        (s.withElem l i r.1).leftAt i = s.leftAt i ++ [(now, p)]) := by
  obtain ⟨hentered, -, hcases⟩ := Kind.event_spec hr
  refine ⟨fun j => ?_, fun j hj => ?_, ?_⟩
  · by_cases hj : j = i
    · subst hj
      simp only [enteredAt, withElem, Function.update_self, hentered]
    · simp only [enteredAt, withElem, Function.update_of_ne hj]
  · simp only [leftAt, withElem, Function.update_of_ne hj]
  · simp only [leftAt, packetsAt, withElem, Function.update_self]
    rcases hcases with ⟨hnone, hpackets, hleft⟩ | ⟨p, p', hsome, hid, -, hp, hleft⟩
    · exact Or.inl ⟨hnone, hleft, hpackets⟩
    · exact Or.inr ⟨p, p', hsome, hid, hp, hleft⟩

theorem inOrder_event (hplace : InPlace none s) (h : InOrder none s) :
    InOrder ((T.kind i).sends (s.elems i)) (s.withElem l i r.1) := by
  obtain ⟨hentered, hother, hcases⟩ := histories_event hr l
  have htaken : ∀ j, (s.withElem l i r.1).taken j = s.taken j := fun j => by
    rw [taken, taken, hentered j]
  have hgone : ∀ j, (s.gone j).Sublist ((s.withElem l i r.1).gone j) := by
    intro j
    by_cases hj : j = i
    · subst hj
      rcases hcases with ⟨-, hsame, -⟩ | ⟨p, p', -, -, -, hleft⟩
      · rw [gone, gone, hsame]
      · rw [gone, gone, hleft, List.map_append]
        exact List.sublist_append_left _ _
    · rw [gone, gone, hother j hj]
  refine ⟨fun j => ?_, fun j n hn => ?_, fun R k j hj => ?_, fun pkt hp e he j hj => ?_⟩
  · rw [htaken, h.fifo]
    by_cases hj : j = i
    · subst hj
      rcases hcases with ⟨-, hsame, hpackets⟩ | ⟨p, p', -, -, hp, hleft⟩
      · rw [gone, gone, hsame, hpackets]
      · rw [gone, gone, hleft, hp]
        simp
    · rw [gone, gone, hother j hj, (packetsAt_event hr l).1 j hj]
  · rw [htaken] at hn
    exact h.made j n hn
  · rw [htaken]
    refine (h.order R k j hj).trans ?_
    cases k with
    | zero => exact List.Sublist.refl _
    | succ k =>
      rw [feed, feed]
      cases R.hops[k]? with
      | none => exact List.Sublist.refl _
      | some j' => exact (hgone j').filter _
  · -- what is sent on has left this element last
    rcases hcases with ⟨hnone, -⟩ | ⟨p, p', hsome, hid, hpk, hleft⟩
    · rw [hnone] at hp
      cases hp
    rw [hsome] at hp
    cases hp
    obtain ⟨e', k, he', -, hk, hi⟩ := hplace.entry (show p ∈ s.packetsAt i by
      rw [hpk]
      exact List.mem_cons_self)
    have hsame : s.sent[pkt.id]? = some e := he
    rw [hid, he'] at hsame
    cases hsame
    have hself : (s.withElem l i r.1).onRoute e.route.hops [p.id] = [p.id] := by
      rw [onRoute, List.filter_cons_of_pos, List.filter_nil]
      rw [show (s.withElem l i r.1).hopsOf p.id = s.hopsOf p.id from rfl, hopsOf, he']
      simp
    have horder := h.order e.route (k + 1) j (by rw [← hk]; exact hj)
    rw [feed, hi, Option.map_some, Option.getD_some] at horder
    rw [htaken, hk, feed, hi, Option.map_some, Option.getD_some, gone, hleft, List.map_append,
      onRoute_append, List.map_singleton, hself, hid]
    exact horder.append (List.Sublist.refl _)

end Event

/-! ### A packet that is sent on -/

theorem hopsOf_advance {s : Network T} {n : Nat} {e : Traveller T} (he : s.sent[n]? = some e)
    (m : Nat) :
    (s.advance n e).hopsOf m = s.hopsOf m := by
  by_cases hn : n = m
  · subst hn
    rw [hopsOf, hopsOf, sent_advance_self he, he]
    rfl
  · rw [hopsOf, hopsOf, sent_advance_of_ne hn]

theorem inOrder_sendOn {s t : Network T} {pkt : Packet} (h : InOrder (some pkt) s)
    (hsend : s.sendOn pkt = some t) : InOrder none t := by
  obtain ⟨e, i, he, hi, hhand⟩ := sendOn_spec hsend
  obtain ⟨hsent, -, hother, hleft, hcases⟩ := hand_spec hhand
  have hhops : ∀ n, t.hopsOf n = s.hopsOf n := fun n => by
    rw [hopsOf, hsent]
    exact hopsOf_advance he n
  have hon : ∀ hops ids, t.onRoute hops ids = s.onRoute hops ids :=
    fun hops ids => onRoute_congr fun n _ => hhops n
  have hlen : t.sent.length = s.sent.length := by
    rw [hsent]
    exact List.length_set
  have hgone : ∀ j, t.gone j = s.gone j := by
    intro j
    by_cases hj : j = i
    · subst hj
      rw [gone, hleft]
      rfl
    · rw [gone, leftAt, hother j hj]
      rfl
  have hfeed : ∀ hops k, t.feed hops k = s.feed hops k := by
    intro hops k
    cases k with
    | zero => rw [feed, feed, hlen]
    | succ k =>
      rw [feed, feed]
      cases hops[k]? with
      | none => rfl
      | some j => exact hgone j
  have hrest : ∀ j, j ≠ i → t.taken j = s.taken j ∧ t.packetsAt j = s.packetsAt j := fun j hj => by
    rw [taken, enteredAt, packetsAt, hother j hj]
    exact ⟨rfl, rfl⟩
  -- the element takes the packet or drops it
  have hhere : (t.taken i = s.taken i ++ [pkt.id] ∧ t.packetsAt i = s.packetsAt i ++ [pkt]) ∨
      (t.taken i = s.taken i ∧ t.packetsAt i = s.packetsAt i) := by
    rcases hcases with ⟨hp, hen, -⟩ | ⟨hp, hen, -⟩
    · refine Or.inl ⟨?_, hp⟩
      rw [taken, hen, List.map_append]
      rfl
    · refine Or.inr ⟨?_, hp⟩
      rw [taken, hen]
      rfl
  refine ⟨fun j => ?_, fun j n hn => ?_, fun R k j hj => ?_, fun p hp => (by cases hp)⟩
  · rw [hgone]
    by_cases hj : j = i
    · subst hj
      rcases hhere with ⟨ht, hp⟩ | ⟨ht, hp⟩
      · rw [ht, hp, h.fifo, List.map_append, List.append_assoc]
        rfl
      · rw [ht, hp, h.fifo]
    · rw [(hrest j hj).1, (hrest j hj).2, h.fifo]
  · rw [hlen]
    by_cases hj : j = i
    · subst hj
      rcases hhere with ⟨ht, -⟩ | ⟨ht, -⟩
      · rw [ht] at hn
        rcases List.mem_append.mp hn with hold | hnew
        · exact h.made j n hold
        · rw [List.mem_singleton.mp hnew]
          exact (List.getElem?_eq_some_iff.mp he).1
      · rw [ht] at hn
        exact h.made j n hn
    · rw [(hrest j hj).1] at hn
      exact h.made j n hn
  · rw [hon, hon, hfeed]
    by_cases hij : j = i
    · subst hij
      rcases hhere with ⟨ht, -⟩ | ⟨ht, -⟩
      · rw [ht, onRoute_append]
        by_cases hroute : e.route.hops = R.hops
        · -- the route has the element at one hop only
          obtain ⟨hlt, hget⟩ := List.getElem?_eq_some_iff.mp hi
          rw [← hroute] at hj ⊢
          obtain ⟨hlt', hget'⟩ := List.getElem?_eq_some_iff.mp hj
          have hk := (List.Nodup.getElem_inj_iff e.route.nodup).mp (hget'.trans hget.symm)
          have hself : s.onRoute e.route.hops [pkt.id] = [pkt.id] := by
            rw [onRoute, List.filter_cons_of_pos, List.filter_nil]
            rw [hopsOf, he]
            simp
          rw [hself, hk]
          exact h.flying pkt rfl e he j hi
        · have hnone : s.onRoute R.hops [pkt.id] = [] := by
            rw [onRoute, List.filter_cons_of_neg, List.filter_nil]
            rw [hopsOf, he]
            simpa using hroute
          rw [hnone, List.append_nil]
          exact h.order R k j hj
      · rw [ht]
        exact h.order R k j hj
    · rw [(hrest j hij).1]
      exact h.order R k j hj

/-! ### Steps -/

/-- The event list has no part in it. -/
theorem inOrder_list {s : Network T} {fly : Option Packet} (h : InOrder fly s)
    (l : EventList Nat) : InOrder fly { s with list := l } :=
  ⟨h.fifo, h.made, h.order, h.flying⟩

theorem inOrder_hostAct {s t : Network T} {a : HostAct T} (h : InOrder none s)
    (hact : s.hostAct a = some t) : InOrder none t := by
  cases a with
  | send route flow size =>
    simp only [hostAct] at hact
    split_ifs at hact
    exact inOrder_sendOn (inOrder_newpkt h) hact
  | timer host time =>
    simp only [hostAct] at hact
    split_ifs at hact
    obtain ⟨l, -, rfl⟩ := Option.map_eq_some_iff.mp hact
    exact inOrder_list h l

theorem inOrder_emit {s t : Network T} {fly : Option Packet} (h : InOrder fly s)
    (hemit : emit s fly = some t) : InOrder none t := by
  cases fly with
  | none =>
    cases hemit
    exact h
  | some pkt => exact inOrder_sendOn h hemit

theorem inOrder_step {s t : Network T} {a : Act T} (hplace : InPlace none s)
    (h : InOrder none s) (hstep : s.step a = some t) : InOrder none t := by
  cases a with
  | hosts acts => exact hostActs_induction (fun h ha => inOrder_hostAct h ha) h hstep
  | dispatch acts =>
    obtain ⟨i, l, r, s₁, s₂, l', -, -, hr, h₁, h₂, -, rfl⟩ := dispatch_parts hstep
    have hemit := inOrder_emit (inOrder_event hr l hplace h) h₁
    exact inOrder_list (hostActs_induction (fun h ha => inOrder_hostAct h ha) hemit h₂) l'

/-! ## Along every run -/

theorem inOrder_reachable {s : Network T} (h : (system T).Reachable (start T) s) :
    InOrder none s :=
  (h.invariant (I := fun s => InPlace none s ∧ InOrder none s)
    ⟨inPlace_start T, inOrder_start T⟩
    fun _ _ _ hs hstep => ⟨inPlace_step hs.1 hstep, inOrder_step hs.1 hs.2 hstep⟩).2

/-- What a hop takes is in the order in which it was made, if what it gets is. -/
theorem InOrder.increasing {s : Network T} (h : InOrder none s) (R : Route T) {k i : Nat}
    (hi : R.hops[k]? = some i) : (s.onRoute R.hops (s.taken i)).Pairwise (· < ·) := by
  induction k generalizing i with
  | zero =>
    refine List.Pairwise.sublist (h.order R 0 i hi) ?_
    exact List.Pairwise.filter _ List.pairwise_lt_range
  | succ k ih =>
    obtain ⟨j, hj⟩ : ∃ j, R.hops[k]? = some j := by
      obtain ⟨hlt, -⟩ := List.getElem?_eq_some_iff.mp hi
      exact ⟨_, List.getElem?_eq_getElem (Nat.lt_of_succ_lt hlt)⟩
    refine List.Pairwise.sublist (h.order R (k + 1) i hi) ?_
    -- what has left the hop before is a part of what it took
    rw [feed, hj, Option.map_some, Option.getD_some]
    refine List.Pairwise.sublist (List.Sublist.filter _ ?_) (ih hj)
    rw [h.fifo j]
    exact List.sublist_append_left _ _

/-- At every hop of every route, the host at its end included. -/
theorem passes_in_order {s : Network T} (h : (system T).Reachable (start T) s) (R : Route T)
    {k i : Nat} (hi : R.hops[k]? = some i) :
    (s.onRoute R.hops (s.taken i)).Pairwise (· < ·) :=
  (inOrder_reachable h).increasing R hi

/-- The sink has the two segments in order. -/
theorem passes_in_order_sink :
    (arrivedSegments.onRoute routeFwd.hops (arrivedSegments.taken 2)).Pairwise (· < ·) :=
  passes_in_order reachable_arrivedSegments routeFwd (k := 3) rfl

end Network
end Htsim
end DatacenterNetworking
