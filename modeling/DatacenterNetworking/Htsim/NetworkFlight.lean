/-
  DatacenterNetworking.Htsim.NetworkFlight

  The packets in flight, which are in a queue or a pipe.

    * `Later`      — a packet that is in flight later is in flight now, or new;
    * `overtakes`  — once a packet has come to the end of its route, those made before it
      on the same route are no longer in flight;
    * `Underway`   — in a dispatch one packet arrives, or none; all others stay in flight, or
      are dropped.
-/

import DatacenterNetworking.Htsim.NetworkOrder

namespace DatacenterNetworking
namespace Htsim

/-- A host drops nothing. -/
theorem Kind.lost_of_host {k : Kind} (h : k.isHost) (x : k.State) : k.lost x = [] := by
  cases k with
  | queue cfg => cases h
  | pipe delay => cases h
  | host => rfl

namespace Network

variable {T : Topology} {s t u : Network T}

/-- Packet `n` is in a queue or a pipe. -/
def Flying (s : Network T) (n : Nat) : Prop :=
  ∃ i, ¬ (T.kind i).isHost ∧ n ∈ (s.packetsAt i).map Packet.id

/-- Whether packet `n` is in a queue or a pipe, from the place where its entry says it is. -/
def inFlight (s : Network T) (n : Nat) : Bool :=
  (s.place n).any fun i => !(T.kind i).isHost && ((s.packetsAt i).map Packet.id).contains n

/-- A packet in an element is in no other. -/
theorem InPlace.place_of_mem (h : InPlace none s) {i n : Nat}
    (hn : n ∈ (s.packetsAt i).map Packet.id) : s.place n = some i := by
  obtain ⟨p, hp, rfl⟩ := List.mem_map.mp hn
  obtain ⟨e, k, he, -, hk, hi⟩ := h.entry hp
  rw [place, he, Option.bind_some, Traveller.place, if_neg (by omega), hk, Nat.add_sub_cancel]
  exact hi

theorem inFlight_iff (h : InPlace none s) {n : Nat} : s.inFlight n = true ↔ s.Flying n := by
  rw [inFlight, Option.any_eq_true]
  constructor
  · rintro ⟨i, -, hi⟩
    simp only [Bool.and_eq_true, Bool.not_eq_true', List.contains_eq_mem, decide_eq_true_eq] at hi
    exact ⟨i, by rw [hi.1]; exact Bool.false_ne_true, hi.2⟩
  · rintro ⟨i, hhost, hn⟩
    refine ⟨i, h.place_of_mem hn, ?_⟩
    simp only [Bool.and_eq_true, Bool.not_eq_true', List.contains_eq_mem, decide_eq_true_eq]
    exact ⟨Bool.eq_false_iff.mpr hhost, hn⟩

theorem hopsOf_lt {n : Nat} {hops : List Nat} (h : s.hopsOf n = some hops) : n < s.sent.length := by
  obtain ⟨e, he, -⟩ := Option.map_eq_some_iff.mp h
  exact (List.getElem?_eq_some_iff.mp he).1

/-! ## Later states -/

/-- What packet `n` was made with: its hops, its size and the time. -/
structure Origin where
  hops : List Nat
  size : Nat
  time : Nat

def origin (s : Network T) (n : Nat) : Option Origin :=
  s.sent[n]?.map fun e => ⟨e.route.hops, e.size, e.time⟩

theorem hopsOf_origin (s : Network T) (n : Nat) : s.hopsOf n = (s.origin n).map Origin.hops := by
  rw [hopsOf, origin, Option.map_map]
  rfl

theorem origin_of_sent {n : Nat} {e : Traveller T} (he : s.sent[n]? = some e) :
    s.origin n = some ⟨e.route.hops, e.size, e.time⟩ := by
  rw [origin, he, Option.map_some]

/-- Packets are made, keep what they were made with, and leave the network. -/
structure Later (s t : Network T) : Prop where
  length : s.sent.length ≤ t.sent.length
  origin : ∀ n < s.sent.length, t.origin n = s.origin n
  flying : ∀ n < s.sent.length, t.Flying n → s.Flying n

theorem Later.hops (h : Later s t) (n : Nat) (hn : n < s.sent.length) :
    t.hopsOf n = s.hopsOf n := by
  rw [hopsOf_origin, hopsOf_origin, h.origin n hn]

theorem Later.refl (s : Network T) : Later s s := ⟨le_rfl, fun _ _ => rfl, fun _ _ h => h⟩

theorem Later.trans (hst : Later s t) (htu : Later t u) : Later s u where
  length := hst.length.trans htu.length
  origin := fun n hn => (htu.origin n (hn.trans_le hst.length)).trans (hst.origin n hn)
  flying := fun n hn h => hst.flying n hn (htu.flying n (hn.trans_le hst.length) h)

/-- The event list has no part in it. -/
theorem later_list (s : Network T) (l : EventList Nat) : Later s { s with list := l } :=
  ⟨le_rfl, fun _ _ => rfl, fun _ _ h => h⟩

/-- A packet that is sent on may be in flight afterwards. -/
theorem flying_sendOn {pkt : Packet} (h : s.sendOn pkt = some t) {n : Nat} (hn : t.Flying n) :
    s.Flying n ∨ n = pkt.id := by
  obtain ⟨e, i, -, -, hhand⟩ := sendOn_spec h
  obtain ⟨-, -, hother, -, hcases⟩ := hand_spec hhand
  obtain ⟨j, hj, hmem⟩ := hn
  by_cases hij : j = i
  · subst hij
    rcases hcases with ⟨hp, -, -⟩ | ⟨hp, -, -⟩
    · rw [hp, List.map_append] at hmem
      rcases List.mem_append.mp hmem with hold | hnew
      · exact Or.inl ⟨j, hj, hold⟩
      · exact Or.inr (List.mem_singleton.mp hnew)
    · rw [hp] at hmem
      exact Or.inl ⟨j, hj, hmem⟩
  · rw [packetsAt, hother j hij] at hmem
    exact Or.inl ⟨j, hj, hmem⟩

theorem sent_sendOn {pkt : Packet} (h : s.sendOn pkt = some t) :
    t.sent.length = s.sent.length ∧ ∀ n, t.origin n = s.origin n := by
  obtain ⟨e, i, he, -, hhand⟩ := sendOn_spec h
  obtain ⟨hsent, -⟩ := hand_spec hhand
  refine ⟨?_, fun n => ?_⟩
  · rw [hsent]
    exact List.length_set
  · rw [origin, hsent]
    by_cases hn : pkt.id = n
    · subst hn
      rw [sent_advance_self he, origin_of_sent he, Option.map_some]
    · rw [sent_advance_of_ne hn]
      rfl

/-- No time passes. -/
theorem now_sendOn {pkt : Packet} (h : s.sendOn pkt = some t) : t.list.now = s.list.now := by
  obtain ⟨e, i, -, -, hhand⟩ := sendOn_spec h
  exact (hand_spec hhand).2.1

theorem sent_emit {fly : Option Packet} (h : emit s fly = some t) :
    t.sent.length = s.sent.length ∧ t.list.now = s.list.now := by
  cases fly with
  | none =>
    cases h
    exact ⟨rfl, rfl⟩
  | some pkt => exact ⟨(sent_sendOn h).1, now_sendOn h⟩

theorem now_send {route : Route T} {flow size : Nat}
    (h : s.hostAct (.send route flow size) = some t) : t.list.now = s.list.now := by
  simp only [hostAct] at h
  split_ifs at h
  exact now_sendOn (s := s.newpkt route size) h

/-- What a host sends is new, and on the route it is sent on. -/
theorem send_spec {route : Route T} {flow size : Nat}
    (h : s.hostAct (.send route flow size) = some t) :
    Later s t ∧ t.sent.length = s.sent.length + 1 ∧
      t.origin s.sent.length = some ⟨route.hops, size, s.list.now⟩ := by
  simp only [hostAct] at h
  split_ifs at h
  obtain ⟨hlen, horigin⟩ := sent_sendOn h
  have hone : (s.newpkt route size).sent.length = s.sent.length + 1 := List.length_append
  refine ⟨⟨by omega, fun n hn => ?_, fun n hn hfly => ?_⟩, hlen.trans hone, ?_⟩
  · have hget := List.getElem?_eq_getElem hn
    rw [horigin, origin_of_sent (sent_newpkt_of_some hget), origin_of_sent hget]
  · rcases flying_sendOn h hfly with hold | hnew
    · exact hold
    · exact absurd hnew hn.ne
  · rw [horigin, origin_of_sent (sent_newpkt_self s route size)]

theorem later_hostAct {a : HostAct T} (h : s.hostAct a = some t) : Later s t := by
  cases a with
  | send route flow size => exact (send_spec h).1
  | timer host time =>
    simp only [hostAct] at h
    split_ifs at h
    obtain ⟨l, -, rfl⟩ := Option.map_eq_some_iff.mp h
    exact later_list s l

theorem later_hostActs {acts : List (HostAct T)} (h : s.hostActs acts = some t) : Later s t :=
  hostActs_induction (I := fun t => Later s t) (fun hs ha => hs.trans (later_hostAct ha))
    (Later.refl s) h

theorem hostActs_append (s : Network T) (as bs : List (HostAct T)) :
    s.hostActs (as ++ bs) = (s.hostActs as).bind fun s' => s'.hostActs bs := by
  induction as generalizing s with
  | nil => rfl
  | cons a as ih =>
    rw [List.cons_append, hostActs, hostActs]
    cases s.hostAct a with
    | none => rfl
    | some s' => exact ih s'

section Event

variable {i now : Nat} {r : (T.kind i).State × List Nat}
  (hr : (T.kind i).component.doNextEvent now (s.elems i) = some r) (l : EventList Nat)
include hr

/-- An event puts no packet into flight. -/
theorem later_emit (hemit : emit (s.withElem l i r.1) ((T.kind i).sends (s.elems i)) = some t) :
    Later s t := by
  obtain ⟨hother, hcases⟩ := packetsAt_event hr l
  have hless : ∀ {n : Nat}, (s.withElem l i r.1).Flying n → s.Flying n := by
    rintro n ⟨j, hj, hn⟩
    refine ⟨j, hj, ?_⟩
    by_cases hij : j = i
    · subst hij
      rcases hcases with ⟨-, hsame⟩ | ⟨p, p', -, -, -, hp⟩
      · rw [hsame] at hn
        exact hn
      · rw [hp]
        exact List.mem_cons_of_mem _ hn
    · rw [hother j hij] at hn
      exact hn
  cases hsends : (T.kind i).sends (s.elems i) with
  | none =>
    rw [hsends] at hemit
    cases hemit
    exact ⟨le_rfl, fun _ _ => rfl, fun _ _ => hless⟩
  | some pkt =>
    rw [hsends] at hemit
    obtain ⟨hlen, horigin⟩ := sent_sendOn hemit
    refine ⟨hlen.ge, fun n _ => horigin n, fun n _ hfly => ?_⟩
    rcases flying_sendOn hemit hfly with hold | rfl
    · exact hless hold
    · -- the packet was in the element
      obtain ⟨p, rest, hp, hid, -⟩ := Kind.head_of_sends hsends
      refine ⟨i, Kind.not_host_of_sends hsends, ?_⟩
      rw [packetsAt, hp, ← hid]
      exact List.mem_cons_self

end Event

/-! ## A packet that arrives -/

/-- The host that gets the packet which element `i` sends on, if one does. -/
def arrival (s : Network T) (i : Nat) : Option (Nat × Packet) :=
  ((T.kind i).sends (s.elems i)).bind fun pkt =>
    s.sent[pkt.id]?.bind fun e =>
      e.route.hops[e.nexthop]?.bind fun h => if (T.kind h).isHost then some (h, pkt) else none

theorem arrival_spec {i h : Nat} {pkt : Packet} (ha : s.arrival i = some (h, pkt)) :
    (T.kind i).sends (s.elems i) = some pkt ∧ (T.kind h).isHost ∧
      ∃ e, s.sent[pkt.id]? = some e ∧ e.route.hops[e.nexthop]? = some h := by
  obtain ⟨p, hp, ha⟩ := Option.bind_eq_some_iff.mp ha
  obtain ⟨e, he, ha⟩ := Option.bind_eq_some_iff.mp ha
  obtain ⟨j, hj, ha⟩ := Option.bind_eq_some_iff.mp ha
  split_ifs at ha with hhost
  cases ha
  exact ⟨hp, hhost, e, he, hj⟩

/-- The host is at the end of the route. -/
theorem arrival_end {i h : Nat} {pkt : Packet} (ha : s.arrival i = some (h, pkt))
    {hops : List Nat} (hroute : s.hopsOf pkt.id = some hops) : hops.getLast? = some h := by
  obtain ⟨-, hhost, e, he, hh⟩ := arrival_spec ha
  have hend := Route.length_of_host hh hhost
  rw [hopsOf, he, Option.map_some] at hroute
  cases hroute
  rw [List.getLast?_eq_getElem?, hend, Nat.add_sub_cancel]
  exact hh

/-- A packet that arrives at a host was in flight. -/
theorem flying_of_arrival {i h : Nat} {pkt : Packet} (ha : s.arrival i = some (h, pkt)) :
    s.Flying pkt.id := by
  obtain ⟨hsends, -⟩ := arrival_spec ha
  obtain ⟨p, rest, hp, hid, -⟩ := Kind.head_of_sends hsends
  refine ⟨i, Kind.not_host_of_sends hsends, ?_⟩
  rw [packetsAt, hp, ← hid]
  exact List.mem_cons_self

/-- The host has it afterwards. -/
theorem mem_of_arrival {i h : Nat} {pkt : Packet} {l : EventList Nat} {x : (T.kind i).State}
    (ha : s.arrival i = some (h, pkt))
    (hemit : emit (s.withElem l i x) ((T.kind i).sends (s.elems i)) = some t) :
    pkt.id ∈ (t.packetsAt h).map Packet.id := by
  obtain ⟨hsends, hhost, e, he, hh⟩ := arrival_spec ha
  rw [hsends] at hemit
  obtain ⟨e', j, he', hj, hhand⟩ := sendOn_spec hemit
  have hsame : s.sent[pkt.id]? = some e' := he'
  rw [he] at hsame
  cases hsame
  rw [hh] at hj
  cases hj
  obtain ⟨-, -, -, -, ⟨hp, -, -⟩ | ⟨hp, -, hl⟩⟩ := hand_spec hhand
  · rw [hp, List.map_append]
    exact List.mem_append_right _ (List.mem_singleton.mpr rfl)
  · have hnone : ∀ u : Network T, u.lostAt h = [] := fun u => Kind.lost_of_host hhost _
    rw [hnone t, hnone] at hl
    cases hl

/-! ## Order -/

/-- What has come to a hop has been taken by all before it. -/
theorem InOrder.taken_before (h : InOrder none s) {R : Route T} {n k i : Nat}
    (hroute : s.hopsOf n = some R.hops) (hi : R.hops[k]? = some i) (hn : n ∈ s.taken i) :
    ∀ {d j : Nat}, d + j = k → ∀ {i' : Nat}, R.hops[j]? = some i' →
      n ∈ s.taken i' ∧ (0 < d → n ∈ s.gone i') := by
  intro d
  induction d with
  | zero =>
    intro j hj i' hi'
    rw [Nat.zero_add] at hj
    rw [hj, hi] at hi'
    cases hi'
    exact ⟨hn, fun hpos => absurd hpos (Nat.lt_irrefl 0)⟩
  | succ d ih =>
    intro j hj i' hi'
    -- the next hop has taken it from this one
    obtain ⟨i'', hi''⟩ : ∃ i'', R.hops[j + 1]? = some i'' := by
      obtain ⟨hlt, -⟩ := List.getElem?_eq_some_iff.mp hi
      exact ⟨_, List.getElem?_eq_getElem (show j + 1 < R.hops.length by omega)⟩
    have hnext := (ih (j := j + 1) (by omega) hi'').1
    have hon : n ∈ s.onRoute R.hops (s.taken i'') :=
      List.mem_filter.mpr ⟨hnext, by simpa using hroute⟩
    have hgone := (h.order R (j + 1) i'' hi'').subset hon
    rw [feed, hi', Option.map_some, Option.getD_some] at hgone
    have hmem : n ∈ s.gone i' := (List.mem_filter.mp hgone).1
    refine ⟨?_, fun _ => hmem⟩
    rw [h.fifo]
    exact List.mem_append_left _ hmem

/-- No packet made earlier on the same route is still in flight when one has arrived. -/
theorem overtakes (hplace : InPlace none s) (horder : InOrder none s) {R : Route T} {n m h : Nat}
    (hhost : (T.kind h).isHost) (hn : n ∈ (s.packetsAt h).map Packet.id)
    (hroute : s.hopsOf n = some R.hops) (hroute' : s.hopsOf m = some R.hops)
    (hfly : s.Flying m) : n < m := by
  obtain ⟨i, hi, hm⟩ := hfly
  obtain ⟨p, hp, rfl⟩ := List.mem_map.mp hn
  obtain ⟨q, hq, rfl⟩ := List.mem_map.mp hm
  obtain ⟨e, k, he, -, -, hh⟩ := hplace.entry hp
  obtain ⟨e', k', he', -, -, hi'⟩ := hplace.entry hq
  have hsame : ∀ {x : Nat} {e : Traveller T}, s.sent[x]? = some e → s.hopsOf x = some R.hops →
      e.route.hops = R.hops := fun he hx => by
    rw [hopsOf, he, Option.map_some] at hx
    exact Option.some.inj hx
  -- the host is at the end, the other packet somewhere before it
  have hend := Route.length_of_host hh hhost
  rw [hsame he hroute] at hh hend
  rw [hsame he' hroute'] at hi'
  have hlt : k' < k := by
    have hle := (List.getElem?_eq_some_iff.mp hi').1
    rcases Nat.lt_or_ge k' k with hlt | hge
    · exact hlt
    · have heq : k' = k := by omega
      rw [heq, hh] at hi'
      cases hi'
      exact absurd hhost hi
  have htaken : p.id ∈ s.taken h := by
    rw [horder.fifo]
    exact List.mem_append_right _ hn
  obtain ⟨d, hd⟩ : ∃ d, d + 1 + k' = k := ⟨k - k' - 1, by omega⟩
  have hgone := (horder.taken_before hroute hh htaken hd hi').2 (Nat.succ_pos d)
  -- what has left that element was made before what is in it
  have hsorted := horder.increasing R hi'
  rw [horder.fifo, onRoute_append] at hsorted
  refine (List.pairwise_append.mp hsorted).2.2 p.id ?_ q.id ?_
  · exact List.mem_filter.mpr ⟨hgone, by simpa using hroute⟩
  · exact List.mem_filter.mpr ⟨hm, by simpa using hroute'⟩

/-- The packet that arrives next is the oldest in flight on its route. -/
theorem arrival_first (hplace : InPlace none s) (horder : InOrder none s) {R : Route T}
    {i h n : Nat} {pkt : Packet} (ha : s.arrival i = some (h, pkt))
    (hroute : s.hopsOf pkt.id = some R.hops) (hroute' : s.hopsOf n = some R.hops)
    (hfly : s.Flying n) : pkt.id ≤ n := by
  obtain ⟨hsends, hhost, e, he, hh⟩ := arrival_spec ha
  obtain ⟨p, rest, hp, hid, -⟩ := Kind.head_of_sends hsends
  obtain ⟨j, hj, hn⟩ := hfly
  obtain ⟨q, hq, rfl⟩ := List.mem_map.mp hn
  have hmem : p ∈ s.packetsAt i := by
    rw [packetsAt, hp]
    exact List.mem_cons_self
  obtain ⟨e₁, k, he₁, -, hk, hi⟩ := hplace.entry hmem
  obtain ⟨e', k', he', -, -, hj'⟩ := hplace.entry hq
  rw [hid, he] at he₁
  cases he₁
  have hsame : ∀ {x : Nat} {e : Traveller T}, s.sent[x]? = some e → s.hopsOf x = some R.hops →
      e.route.hops = R.hops := fun he hx => by
    rw [hopsOf, he, Option.map_some] at hx
    exact Option.some.inj hx
  -- the host is the next hop, the other packet is not there
  have hend := Route.length_of_host hh hhost
  rw [hsame he hroute, hk] at hh hend
  rw [hsame he hroute] at hi
  rw [hsame he' hroute'] at hj'
  have hlt := (List.getElem?_eq_some_iff.mp hj').1
  have hne : k' ≠ k + 1 := fun heq => by
    rw [heq, hh] at hj'
    cases hj'
    exact hj hhost
  have hhere : pkt.id ∈ (s.packetsAt i).map Packet.id := hid ▸ List.mem_map_of_mem hmem
  have hsorted := horder.increasing R hj'
  rw [horder.fifo, onRoute_append] at hsorted
  have hq' : q.id ∈ s.onRoute R.hops ((s.packetsAt j).map Packet.id) :=
    List.mem_filter.mpr ⟨hn, by simpa using hroute'⟩
  by_cases hkk : k' = k
  · -- both are in the last queue or pipe, which it leaves first
    rw [hkk, hi] at hj'
    cases hj'
    rw [packetsAt, hp, List.map_cons, hid] at hq' hsorted
    have hhead : s.onRoute R.hops (pkt.id :: rest.map Packet.id) =
        pkt.id :: s.onRoute R.hops (rest.map Packet.id) :=
      List.filter_cons_of_pos (by simpa using hroute)
    rw [hhead] at hq' hsorted
    rcases List.mem_cons.mp hq' with heq | hmem
    · exact heq.ge
    · exact ((List.pairwise_cons.mp (List.pairwise_append.mp hsorted).2.1).1 q.id hmem).le
  · -- it has left the other's element
    have htaken : pkt.id ∈ s.taken i := by
      rw [horder.fifo]
      exact List.mem_append_right _ hhere
    obtain ⟨d, hd⟩ : ∃ d, d + 1 + k' = k := ⟨k - k' - 1, by omega⟩
    have hgone := (horder.taken_before hroute hi htaken hd hj').2 (Nat.succ_pos d)
    exact ((List.pairwise_append.mp hsorted).2.2 pkt.id
      (List.mem_filter.mpr ⟨hgone, by simpa using hroute⟩) q.id hq').le

/-! ## Whole steps -/

theorem later_step {a : Act T} (h : s.step a = some t) : Later s t := by
  cases a with
  | hosts acts => exact later_hostActs h
  | dispatch acts =>
    obtain ⟨i, l, r, s₁, s₂, l', -, -, hr, h₁, h₂, -, rfl⟩ := dispatch_parts h
    exact ((later_emit hr l h₁).trans (later_hostActs h₂)).trans (later_list s₂ l')

/-- Packets sent one after the other over one route have the next numbers. -/
theorem sends_spec {route : Route T} {flow : Nat} {sizes : List Nat}
    (h : s.hostActs (sizes.map fun size => .send route flow size) = some t) :
    t.sent.length = s.sent.length + sizes.length ∧ t.list.now = s.list.now ∧
      ∀ k size, sizes[k]? = some size →
        t.origin (s.sent.length + k) = some ⟨route.hops, size, s.list.now⟩ := by
  induction sizes generalizing s with
  | nil =>
    cases h
    exact ⟨rfl, rfl, fun k size hk => by cases hk⟩
  | cons size rest ih =>
    obtain ⟨s₁, h₁, hrest⟩ := Option.bind_eq_some_iff.mp h
    obtain ⟨-, hlen, hfirst⟩ := send_spec h₁
    have hnow : s₁.list.now = s.list.now := now_send h₁
    obtain ⟨hlen', hnow', hlater⟩ := ih hrest
    refine ⟨?_, hnow'.trans hnow, fun k size' hk => ?_⟩
    · rw [hlen', hlen, List.length_cons]
      omega
    · cases k with
      | zero =>
        cases hk
        rw [Nat.add_zero, (later_hostActs hrest).origin _ (by omega)]
        exact hfirst
      | succ k =>
        have hnext := hlater k size' hk
        rw [hlen, hnow] at hnext
        rw [show s.sent.length + (k + 1) = s.sent.length + 1 + k by omega]
        exact hnext

/-- The next packets over a route, of a dispatch in which the hosts send these first. -/
theorem origin_dispatch {route : Route T} {flow : Nat} {sizes : List Nat}
    {acts : List (HostAct T)} {i : Nat} {l : EventList Nat} (hnext : s.list.next = .event i l)
    (h : s.step (.dispatch ((sizes.map fun size => .send route flow size) ++ acts)) = some t) :
    ∀ k size, sizes[k]? = some size →
      t.origin (s.sent.length + k) = some ⟨route.hops, size, l.now⟩ := by
  intro k size hk
  obtain ⟨i', l₀, r, s₁, s₂, l', hnext', -, hr, h₁, h₂, -, rfl⟩ := dispatch_parts h
  rw [hnext] at hnext'
  cases hnext'
  rw [hostActs_append] at h₂
  obtain ⟨u, hu, hrest⟩ := Option.bind_eq_some_iff.mp h₂
  have hsame : s₁.sent.length = s.sent.length ∧ s₁.list.now = l.now :=
    sent_emit (s := s.withElem l i r.1) h₁
  have hsent := (sends_spec hu).2.2 k size hk
  rw [hsame.1, hsame.2] at hsent
  have hlt : s.sent.length + k < u.sent.length := by
    have hlen := (sends_spec hu).1
    have hlt := (List.getElem?_eq_some_iff.mp hk).1
    omega
  exact ((later_hostActs hrest).origin _ hlt).trans hsent

/-- Requests for events are no packets. -/
theorem length_timers {host : Nat} {times : List UInt64}
    (h : s.hostActs (times.map fun time => .timer host time) = some t) :
    t.sent.length = s.sent.length := by
  induction times generalizing s with
  | nil =>
    cases h
    rfl
  | cons time rest ih =>
    obtain ⟨s₁, h₁, hrest⟩ := Option.bind_eq_some_iff.mp h
    simp only [hostAct] at h₁
    split_ifs at h₁
    obtain ⟨l, -, rfl⟩ := Option.map_eq_some_iff.mp h₁
    exact ih (s := { s with list := l }) hrest

/-- The number of packets, when the hosts do no more than this. -/
theorem length_dispatch {route : Route T} {flow host : Nat} {sizes : List Nat}
    {times : List UInt64}
    (h : s.step (.dispatch ((sizes.map fun size => .send route flow size) ++
      times.map fun time => .timer host time)) = some t) :
    t.sent.length = s.sent.length + sizes.length := by
  obtain ⟨i, l, r, s₁, s₂, l', -, -, hr, h₁, h₂, -, rfl⟩ := dispatch_parts h
  rw [hostActs_append] at h₂
  obtain ⟨u, hu, hrest⟩ := Option.bind_eq_some_iff.mp h₂
  show s₂.sent.length = _
  rw [length_timers hrest, (sends_spec hu).1, (sent_emit (s := s.withElem l i r.1) h₁).1]
  rfl

theorem hops_dispatch {route : Route T} {flow : Nat} {sizes : List Nat} {acts : List (HostAct T)}
    (h : s.step (.dispatch ((sizes.map fun size => .send route flow size) ++ acts)) = some t) :
    ∀ k < sizes.length, t.hopsOf (s.sent.length + k) = some route.hops := by
  intro k hk
  obtain ⟨i, l, r, s₁, s₂, l', hnext, -⟩ := dispatch_parts h
  rw [hopsOf_origin, origin_dispatch hnext h k _ (List.getElem?_eq_getElem hk), Option.map_some]

/-- In the dispatch in which a packet arrives, too. -/
theorem overtakes_dispatch (hplace : InPlace none s) (horder : InOrder none s)
    {acts : List (HostAct T)} {i : Nat} {l : EventList Nat} (hnext : s.list.next = .event i l)
    {h : Nat} {pkt : Packet} (ha : s.arrival i = some (h, pkt))
    (hstep : s.step (.dispatch acts) = some t) {R : Route T} {n : Nat}
    (hroute : s.hopsOf pkt.id = some R.hops) (hroute' : s.hopsOf n = some R.hops)
    (hfly : t.Flying n) : pkt.id < n := by
  obtain ⟨i', l₀, r, s₁, s₂, l', hnext', -, hr, h₁, h₂, -, rfl⟩ := dispatch_parts hstep
  rw [hnext] at hnext'
  cases hnext'
  have hlater := later_emit hr l h₁
  have hrest : Later s₁ { s₂ with list := l' } := (later_hostActs h₂).trans (later_list s₂ l')
  have hn := hopsOf_lt hroute'
  refine overtakes (R := R) (inPlace_emit (inPlace_event hr l hplace) h₁)
    (inOrder_emit (inOrder_event hr l hplace horder) h₁) (arrival_spec ha).2.1
    (mem_of_arrival ha h₁) ?_ ?_ (hrest.flying n (hn.trans_le hlater.length) hfly)
  · rw [hlater.hops _ (hopsOf_lt hroute)]
    exact hroute
  · rw [hlater.hops n hn]
    exact hroute'

/-! ## Packets that have not arrived -/

/-- Packet `n` is in a queue or a pipe, or was dropped by one. -/
def Underway (s : Network T) (n : Nat) : Prop :=
  s.Flying n ∨ ∃ i, n ∈ (s.lostAt i).map Packet.id

theorem Underway.flying {n : Nat} (h : s.Underway n) (hnone : ∀ i, s.lostAt i = []) :
    s.Flying n := by
  rcases h with hfly | ⟨i, hi⟩
  · exact hfly
  · rw [hnone] at hi
    cases hi

/-- Packets that are underway stay so when one comes to an element, and that one is underway if
    the element is no host. -/
theorem underway_hand {i : Nat} {pkt : Packet} (h : s.hand i pkt = some t) :
    (∀ n, s.Underway n → t.Underway n) ∧ (¬ (T.kind i).isHost → t.Underway pkt.id) := by
  obtain ⟨-, -, hother, -, hcases⟩ := hand_spec h
  have hpackets : ∀ j, ∀ n ∈ (s.packetsAt j).map Packet.id,
      n ∈ (t.packetsAt j).map Packet.id := by
    intro j n hn
    by_cases hj : j = i
    · subst hj
      rcases hcases with ⟨hp, -, -⟩ | ⟨hp, -, -⟩
      · rw [hp, List.map_append]
        exact List.mem_append_left _ hn
      · rw [hp]
        exact hn
    · rw [packetsAt, hother j hj]
      exact hn
  have hlost : ∀ j, ∀ n ∈ (s.lostAt j).map Packet.id, n ∈ (t.lostAt j).map Packet.id := by
    intro j n hn
    by_cases hj : j = i
    · subst hj
      rcases hcases with ⟨-, -, hl⟩ | ⟨-, -, hl⟩
      · rw [hl]
        exact hn
      · rw [hl, List.map_append]
        exact List.mem_append_left _ hn
    · rw [lostAt, hother j hj]
      exact hn
  refine ⟨fun n hn => ?_, fun hhost => ?_⟩
  · rcases hn with ⟨j, hj, hn⟩ | ⟨j, hn⟩
    · exact Or.inl ⟨j, hj, hpackets j n hn⟩
    · exact Or.inr ⟨j, hlost j n hn⟩
  · rcases hcases with ⟨hp, -, -⟩ | ⟨-, -, hl⟩
    · refine Or.inl ⟨i, hhost, ?_⟩
      rw [hp, List.map_append]
      exact List.mem_append_right _ (List.mem_singleton.mpr rfl)
    · refine Or.inr ⟨i, ?_⟩
      rw [hl, List.map_append]
      exact List.mem_append_right _ (List.mem_singleton.mpr rfl)

theorem underway_sendOn {pkt : Packet} (h : s.sendOn pkt = some t) :
    (∀ n, s.Underway n → t.Underway n) ∧
      ((∀ e i, s.sent[pkt.id]? = some e → e.route.hops[e.nexthop]? = some i →
        ¬ (T.kind i).isHost) → t.Underway pkt.id) := by
  obtain ⟨e, i, he, hi, hhand⟩ := sendOn_spec h
  obtain ⟨hkeep, hnew⟩ := underway_hand hhand
  exact ⟨hkeep, fun hnext => hnew (hnext e i he hi)⟩

/-- The first hop of a route is a queue. -/
theorem underway_send {route : Route T} {flow size : Nat}
    (h : s.hostAct (.send route flow size) = some t) :
    (∀ n, s.Underway n → t.Underway n) ∧ t.Underway s.sent.length := by
  simp only [hostAct] at h
  split_ifs at h
  obtain ⟨hkeep, hnew⟩ := underway_sendOn h
  refine ⟨hkeep, hnew fun e i he hi => ?_⟩
  have hsent := sent_newpkt_self s route size
  rw [show (s.newpkt route size).sent[s.sent.length]? = some e from he] at hsent
  cases hsent
  have hqueue := route.first i (by rw [List.head?_eq_getElem?]; exact hi)
  cases hk : T.kind i with
  | queue cfg => exact Bool.false_ne_true
  | pipe delay => exact Bool.false_ne_true
  | host =>
    rw [hk] at hqueue
    cases hqueue

theorem underway_hostAct {a : HostAct T} (h : s.hostAct a = some t) {n : Nat}
    (hn : s.Underway n) : t.Underway n := by
  cases a with
  | send route flow size => exact (underway_send h).1 n hn
  | timer host time =>
    simp only [hostAct] at h
    split_ifs at h
    obtain ⟨l, -, rfl⟩ := Option.map_eq_some_iff.mp h
    exact hn

theorem underway_hostActs {acts : List (HostAct T)} (h : s.hostActs acts = some t) {n : Nat}
    (hn : s.Underway n) : t.Underway n :=
  hostActs_induction (I := fun t => t.Underway n) (fun hs ha => underway_hostAct ha hs) hn h

/-- What hosts send is not at its end. -/
theorem underway_sends {route : Route T} {flow : Nat} {sizes : List Nat}
    (h : s.hostActs (sizes.map fun size => .send route flow size) = some t) :
    ∀ k < sizes.length, t.Underway (s.sent.length + k) := by
  induction sizes generalizing s with
  | nil => exact fun k hk => absurd hk (Nat.not_lt_zero k)
  | cons size rest ih =>
    obtain ⟨s₁, h₁, hrest⟩ := Option.bind_eq_some_iff.mp h
    obtain ⟨-, hlen, -⟩ := send_spec h₁
    intro k hk
    cases k with
    | zero => exact underway_hostActs hrest (underway_send h₁).2
    | succ k =>
      have hnext := ih hrest k (Nat.lt_of_succ_lt_succ hk)
      rw [hlen] at hnext
      rw [show s.sent.length + (k + 1) = s.sent.length + 1 + k by omega]
      exact hnext

section Event

variable {i now : Nat} {r : (T.kind i).State × List Nat}
  (hr : (T.kind i).component.doNextEvent now (s.elems i) = some r) (l : EventList Nat)
include hr

/-- An event takes a packet to its end, or none. -/
theorem underway_emit {n : Nat}
    (hemit : emit (s.withElem l i r.1) ((T.kind i).sends (s.elems i)) = some t)
    (hn : s.Underway n) (harrive : ∀ h pkt, s.arrival i = some (h, pkt) → pkt.id ≠ n) :
    t.Underway n := by
  obtain ⟨hother, hcases⟩ := packetsAt_event hr l
  -- the packet is still in its element, or it is the one that is sent on
  have hstill : (s.withElem l i r.1).Underway n ∨
      ∃ pkt, (T.kind i).sends (s.elems i) = some pkt ∧ pkt.id = n := by
    rcases hn with ⟨j, hj, hn⟩ | ⟨j, hn⟩
    · by_cases hij : j = i
      · subst hij
        rcases hcases with ⟨-, hsame⟩ | ⟨p, p', hsends, hid, -, hp⟩
        · exact Or.inl (Or.inl ⟨j, hj, by rw [hsame]; exact hn⟩)
        · rw [hp, List.map_cons] at hn
          rcases List.mem_cons.mp hn with rfl | hrest
          · exact Or.inr ⟨p', hsends, hid⟩
          · exact Or.inl (Or.inl ⟨j, hj, hrest⟩)
      · exact Or.inl (Or.inl ⟨j, hj, by rw [hother j hij]; exact hn⟩)
    · exact Or.inl (Or.inr ⟨j, by rw [lostAt_event hr l]; exact hn⟩)
  cases hsends : (T.kind i).sends (s.elems i) with
  | none =>
    rw [hsends] at hemit hstill
    cases hemit
    exact hstill.resolve_right fun ⟨pkt, hnone, _⟩ => by cases hnone
  | some pkt =>
    rw [hsends] at hemit hstill
    obtain ⟨hkeep, hnew⟩ := underway_sendOn hemit
    rcases hstill with hstill | ⟨pkt', hsome, rfl⟩
    · exact hkeep n hstill
    · cases hsome
      refine hnew fun e j he hj hhost => harrive j pkt ?_ rfl
      have he' : s.sent[pkt.id]? = some e := he
      rw [arrival, hsends, Option.bind_some, he', Option.bind_some, hj, Option.bind_some,
        if_pos hhost]

end Event

/-- In a dispatch one packet may arrive, and no other. -/
theorem underway_dispatch {acts : List (HostAct T)} (h : s.step (.dispatch acts) = some t)
    {i : Nat} {l : EventList Nat} (hnext : s.list.next = .event i l) {n : Nat}
    (hn : s.Underway n) (harrive : ∀ h pkt, s.arrival i = some (h, pkt) → pkt.id ≠ n) :
    t.Underway n := by
  obtain ⟨i', l₀, r, s₁, s₂, l', hnext', -, hr, h₁, h₂, -, rfl⟩ := dispatch_parts h
  rw [hnext] at hnext'
  cases hnext'
  exact underway_hostActs h₂ (underway_emit hr l h₁ hn harrive)

/-- What the hosts send in it first has not arrived. -/
theorem underway_new {route : Route T} {flow : Nat} {sizes : List Nat}
    {acts : List (HostAct T)}
    (h : s.step (.dispatch ((sizes.map fun size => .send route flow size) ++ acts)) = some t) :
    ∀ k < sizes.length, t.Underway (s.sent.length + k) := by
  intro k hk
  obtain ⟨i, l, r, s₁, s₂, l', -, -, hr, h₁, h₂, -, rfl⟩ := dispatch_parts h
  rw [hostActs_append] at h₂
  obtain ⟨u, hu, hrest⟩ := Option.bind_eq_some_iff.mp h₂
  have hsame : s₁.sent.length = s.sent.length := (sent_emit (s := s.withElem l i r.1) h₁).1
  have hnew := underway_sends hu k hk
  rw [hsame] at hnew
  exact underway_hostActs hrest hnew

end Network
end Htsim
end DatacenterNetworking
