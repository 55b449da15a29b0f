/-
  DatacenterNetworking.Htsim.NetworkPlaces

  Where the packets of a network are.

  `once_each`: every packet that was made is at one place, the element it was handed to
  last; there it is once, among the packets in the element or among those it dropped.
  A packet at a host has gone its whole route.
-/

import DatacenterNetworking.Htsim.Network

namespace DatacenterNetworking
namespace Htsim

/-! ## One element -/

namespace Kind

/-- The packets in an element, oldest first; a host keeps what it got. -/
def packets : (k : Kind) → k.State → List Packet
  | .queue _, q => q.enqueued
  | .pipe _, p => p.inflight.map Prod.snd
  | .host, got => got.map Prod.snd

/-- The packets it has dropped. -/
def lost : (k : Kind) → k.State → List Packet
  | .queue _, q => q.dropped.map Prod.snd
  | .pipe _, _ => []
  | .host, _ => []

/-- The packets it has taken, with the times. -/
def entered : (k : Kind) → k.State → List (Nat × Packet)
  | .queue _, q => q.accepted
  | .pipe _, p => p.arrived
  | .host, got => got

/-- The packets that have left it, with the times. -/
def left : (k : Kind) → k.State → List (Nat × Packet)
  | .queue _, q => q.departed
  | .pipe _, p => p.departed
  | .host, _ => []

/-- What `receivePacket` does: the packet is taken or dropped. -/
theorem receive_spec {k : Kind} {now : Nat} {pkt : Packet} {x : k.State}
    {r : k.State × List Nat} (h : k.component.receivePacket now pkt x = some r) :
    k.left r.1 = k.left x ∧
      ((k.packets r.1 = k.packets x ++ [pkt] ∧ k.entered r.1 = k.entered x ++ [(now, pkt)] ∧
          k.lost r.1 = k.lost x) ∨
        (k.packets r.1 = k.packets x ∧ k.entered r.1 = k.entered x ∧
          k.lost r.1 = k.lost x ++ [pkt])) := by
  cases k with
  | queue cfg =>
    simp only [component, FifoQueue.component, FifoQueue.receivePacket] at h
    split_ifs at h
    · cases h
      refine ⟨rfl, Or.inr ⟨rfl, rfl, ?_⟩⟩
      exact List.map_append
    all_goals
      cases h
      exact ⟨rfl, Or.inl ⟨rfl, rfl, rfl⟩⟩
  | pipe delay =>
    simp only [component, Pipe.component, Pipe.receivePacket] at h
    cases h
    refine ⟨rfl, Or.inl ⟨?_, rfl, rfl⟩⟩
    exact List.map_append
  | host =>
    cases h
    refine ⟨rfl, Or.inl ⟨?_, rfl, rfl⟩⟩
    exact List.map_append

/-- What an event does: the oldest packet leaves, if one does, and is sent on with the same size
    under the same number. -/
theorem event_spec {k : Kind} {now : Nat} {x : k.State} {r : k.State × List Nat}
    (h : k.component.doNextEvent now x = some r) :
    k.entered r.1 = k.entered x ∧ k.lost r.1 = k.lost x ∧
      ((k.sends x = none ∧ k.packets r.1 = k.packets x ∧ k.left r.1 = k.left x) ∨
        ∃ p p', k.sends x = some p' ∧ p'.id = p.id ∧ p'.size = p.size ∧
          k.packets x = p :: k.packets r.1 ∧ k.left r.1 = k.left x ++ [(now, p)]) := by
  cases k with
  | queue cfg =>
    cases hq : FifoQueue.enqueued x with
    | nil =>
      simp only [component, FifoQueue.component, FifoQueue.doNextEvent, hq] at h
      cases h
    | cons p rest =>
      simp only [component, FifoQueue.component, FifoQueue.doNextEvent, hq] at h
      cases h
      have hsends : (queue cfg).sends x = some (applyEcnMark cfg.bitrate
          ((FifoQueue.queuesize x + 2 ^ 64 - p.size) % 2 ^ 64) p) := by
        simp only [sends, hq, List.head?_cons, Option.map_some]
      refine ⟨rfl, rfl, Or.inr ⟨p, _, hsends, ?_, size_applyEcnMark _ _ p, hq, rfl⟩⟩
      simp only [applyEcnMark]
      split_ifs
      · rfl
      · rfl
  | pipe delay =>
    cases hp : Pipe.inflight x with
    | nil =>
      simp only [component, Pipe.component, Pipe.doNextEvent, hp] at h
      cases h
      refine ⟨rfl, rfl, Or.inl ⟨?_, rfl, rfl⟩⟩
      simp only [sends, hp, List.head?_nil, Option.map_none]
    | cons e rest =>
      simp only [component, Pipe.component, Pipe.doNextEvent, hp] at h
      cases h
      refine ⟨rfl, rfl, Or.inr ⟨e.2, e.2, ?_, rfl, rfl, ?_, rfl⟩⟩
      · simp only [sends, hp, List.head?_cons, Option.map_some]
      · simp only [packets, hp, List.map_cons]
  | host =>
    cases h
    exact ⟨rfl, rfl, Or.inl ⟨rfl, rfl, rfl⟩⟩

/-- What is sent on is the oldest packet. -/
theorem head_of_sends {k : Kind} {x : k.State} {p' : Packet} (h : k.sends x = some p') :
    ∃ p rest, k.packets x = p :: rest ∧ p.id = p'.id ∧ p.size = p'.size := by
  cases k with
  | queue cfg =>
    obtain ⟨p, hp, rfl⟩ := Option.map_eq_some_iff.mp h
    obtain ⟨rest, hq⟩ := List.head?_eq_some_iff.mp hp
    refine ⟨p, rest, hq, ?_, (size_applyEcnMark _ _ p).symm⟩
    simp only [applyEcnMark]
    split_ifs
    · rfl
    · rfl
  | pipe delay =>
    obtain ⟨e, he, rfl⟩ := Option.map_eq_some_iff.mp h
    obtain ⟨rest, hp⟩ := List.head?_eq_some_iff.mp he
    refine ⟨e.2, rest.map Prod.snd, ?_, rfl, rfl⟩
    rw [packets, hp, List.map_cons]
  | host => cases h

theorem not_host_of_sends {k : Kind} {x : k.State} {pkt : Packet} (h : k.sends x = some pkt) :
    ¬ k.isHost := by
  cases k with
  | queue cfg => simp [Kind.isHost]
  | pipe delay => simp [Kind.isHost]
  | host => cases h

@[simp] theorem packets_new (k : Kind) : k.packets k.new = [] := by
  cases k <;> rfl

@[simp] theorem lost_new (k : Kind) : k.lost k.new = [] := by
  cases k <;> rfl

@[simp] theorem entered_new (k : Kind) : k.entered k.new = [] := by
  cases k <;> rfl

@[simp] theorem left_new (k : Kind) : k.left k.new = [] := by
  cases k <;> rfl

end Kind

/-! ## Routes -/

section Route

variable {T : Topology}

/-- A host is at the end of a route. -/
theorem Route.length_of_host {R : Route T} {k i : Nat} (hi : R.hops[k]? = some i)
    (hhost : (T.kind i).isHost) : R.hops.length = k + 1 := by
  obtain ⟨hlt, hget⟩ := List.getElem?_eq_some_iff.mp hi
  by_contra hne
  have hlt' : k + 1 < R.hops.length := by omega
  have hlink := List.isChain_iff_getElem.mp R.links k hlt'
  rw [hget] at hlink
  simp only [Topology.link] at hlink
  cases hk : T.kind i with
  | queue cfg =>
    rw [hk] at hhost
    cases hhost
  | pipe delay =>
    rw [hk] at hhost
    cases hhost
  | host =>
    rw [hk] at hlink
    cases hlink

/-- Behind any other element there is a next one. -/
theorem Route.exists_next {R : Route T} {k i : Nat} (hi : R.hops[k]? = some i)
    (hhost : ¬ (T.kind i).isHost) : ∃ j, R.hops[k + 1]? = some j := by
  obtain ⟨hlt, hget⟩ := List.getElem?_eq_some_iff.mp hi
  by_cases hlt' : k + 1 < R.hops.length
  · exact ⟨_, List.getElem?_eq_getElem hlt'⟩
  · obtain ⟨h, hlast, hh⟩ := R.last
    have hend : R.hops.length - 1 = k := by omega
    rw [List.getLast?_eq_getElem?, hend, hi] at hlast
    cases hlast
    exact absurd hh hhost

/-- The element a packet was handed to last. -/
def Traveller.place (e : Traveller T) : Option Nat :=
  if e.nexthop = 0 then none else e.route.hops[e.nexthop - 1]?

/-- The hops a packet has been handed to. -/
theorem Traveller.place_eq_some {e : Traveller T} {i : Nat} (h : e.place = some i) :
    ∃ k, e.nexthop = k + 1 ∧ e.route.hops[k]? = some i := by
  rw [Traveller.place] at h
  split_ifs at h with hzero
  exact ⟨e.nexthop - 1, by omega, h⟩

end Route

/-! ## The network -/

namespace Network

variable {T : Topology}

def packetsAt (s : Network T) (i : Nat) : List Packet := (T.kind i).packets (s.elems i)

def lostAt (s : Network T) (i : Nat) : List Packet := (T.kind i).lost (s.elems i)

def enteredAt (s : Network T) (i : Nat) : List (Nat × Packet) := (T.kind i).entered (s.elems i)

def leftAt (s : Network T) (i : Nat) : List (Nat × Packet) := (T.kind i).left (s.elems i)

def place (s : Network T) (n : Nat) : Option Nat := s.sent[n]?.bind Traveller.place

/-- How often packet `n` is in element `i` or was dropped there. -/
def holds (s : Network T) (n i : Nat) : Nat :=
  ((s.packetsAt i).map Packet.id).count n + ((s.lostAt i).map Packet.id).count n

/-- What `receivePacket` of an element leaves of the network. -/
theorem hand_spec {s t : Network T} {i : Nat} {pkt : Packet} (h : s.hand i pkt = some t) :
    t.sent = s.sent ∧ t.list.now = s.list.now ∧ (∀ j, j ≠ i → t.elems j = s.elems j) ∧
      t.leftAt i = s.leftAt i ∧
      ((t.packetsAt i = s.packetsAt i ++ [pkt] ∧
          t.enteredAt i = s.enteredAt i ++ [(s.list.now, pkt)] ∧ t.lostAt i = s.lostAt i) ∨
        (t.packetsAt i = s.packetsAt i ∧ t.enteredAt i = s.enteredAt i ∧
          t.lostAt i = s.lostAt i ++ [pkt])) := by
  obtain ⟨r, hr, hlist⟩ := Option.bind_eq_some_iff.mp h
  obtain ⟨l, hl, rfl⟩ := Option.map_eq_some_iff.mp hlist
  refine ⟨rfl, EventList.now_registerAt hl, fun j hj => Function.update_of_ne hj _ _, ?_⟩
  simp only [leftAt, packetsAt, enteredAt, lostAt, Function.update_self]
  exact Kind.receive_spec hr

theorem sendOn_spec {s t : Network T} {pkt : Packet} (h : s.sendOn pkt = some t) :
    ∃ e i, s.sent[pkt.id]? = some e ∧ e.route.hops[e.nexthop]? = some i ∧
      (s.advance pkt.id e).hand i pkt = some t := by
  obtain ⟨e, he, hnext⟩ := Option.bind_eq_some_iff.mp h
  obtain ⟨i, hi, hhand⟩ := Option.bind_eq_some_iff.mp hnext
  exact ⟨e, i, he, hi, hhand⟩

/-- The packets are where they were handed to, once each, but for one that is being sent on. -/
structure InPlace (fly : Option Packet) (s : Network T) : Prop where
  once : ∀ n i, s.holds n i = if s.place n = some i ∧ fly.map Packet.id ≠ some n then 1 else 0
  handed : ∀ n e, s.sent[n]? = some e → fly.map Packet.id ≠ some n → ∃ i, e.place = some i
  size : ∀ i, ∀ p ∈ s.packetsAt i, ∃ e, s.sent[p.id]? = some e ∧ e.size = p.size
  flySize : ∀ p ∈ fly, ∃ e, s.sent[p.id]? = some e ∧ e.size = p.size
  small : ∀ e ∈ s.sent, e.size ≤ T.mtu

theorem inPlace_start (T : Topology) : InPlace none (start T) where
  once := fun n i => by
    simp [holds, packetsAt, lostAt, start, place]
  handed := fun n e he => by
    simp [start] at he
  size := fun i p hp => by
    simp [packetsAt, start] at hp
  flySize := fun p hp => by cases hp
  small := fun e he => absurd he List.not_mem_nil

/-! ### A new packet -/

theorem sent_newpkt_of_some {s : Network T} {route : Route T} {size n : Nat} {e : Traveller T}
    (h : s.sent[n]? = some e) : (s.newpkt route size).sent[n]? = some e := by
  obtain ⟨hlt, -⟩ := List.getElem?_eq_some_iff.mp h
  rw [newpkt, List.getElem?_append_left hlt]
  exact h

theorem sent_newpkt_self (s : Network T) (route : Route T) (size : Nat) :
    (s.newpkt route size).sent[s.sent.length]? = some ⟨route, size, s.list.now, 0⟩ := by
  rw [newpkt, List.getElem?_append_right le_rfl, Nat.sub_self]
  rfl

theorem sent_newpkt_cases {s : Network T} {route : Route T} {size n : Nat} {e : Traveller T}
    (h : (s.newpkt route size).sent[n]? = some e) :
    s.sent[n]? = some e ∨ (n = s.sent.length ∧ e = ⟨route, size, s.list.now, 0⟩) := by
  rcases Nat.lt_trichotomy n s.sent.length with hlt | heq | hgt
  · rw [newpkt, List.getElem?_append_left hlt] at h
    exact Or.inl h
  · rw [heq, sent_newpkt_self] at h
    cases h
    exact Or.inr ⟨heq, rfl⟩
  · have hlen := (List.getElem?_eq_some_iff.mp h).1
    simp only [newpkt, List.length_append, List.length_singleton] at hlen
    omega

/-- A packet that has just been made is nowhere. -/
theorem inPlace_newpkt {s : Network T} {route : Route T} {flow size : Nat} (h : InPlace none s)
    (hsize : size ≤ T.mtu) :
    InPlace (some { flow := flow, size := size, id := s.sent.length }) (s.newpkt route size) where
  once := fun n i => by
    have hold := h.once n i
    by_cases hn : n = s.sent.length
    · have hnone : s.place n = none := by
        rw [place, hn, List.getElem?_eq_none le_rfl]
        rfl
      rw [hnone] at hold
      have hzero : s.holds n i = 0 := by simpa using hold
      rw [if_neg (fun hc => hc.2 (by rw [hn]; rfl))]
      exact hzero
    · have hplace : (s.newpkt route size).place n = s.place n := by
        rw [place, place]
        cases he : s.sent[n]? with
        | some e => rw [sent_newpkt_of_some he]
        | none =>
          cases he' : (s.newpkt route size).sent[n]? with
          | none => rfl
          | some e =>
            rcases sent_newpkt_cases he' with hsome | ⟨heq, -⟩
            · rw [he] at hsome
              cases hsome
            · exact absurd heq hn
      rw [hplace]
      have hfly : some s.sent.length ≠ some n := fun heq => hn (Option.some.inj heq).symm
      simp only [Option.map_some, Option.map_none, ne_eq, reduceCtorEq, not_false_eq_true,
        and_true] at hold ⊢
      rw [if_congr (and_iff_left hfly) rfl rfl]
      exact hold
  handed := fun n e he hfly => by
    rcases sent_newpkt_cases he with hold | ⟨heq, -⟩
    · exact h.handed n e hold (by simp)
    · exact absurd (by rw [heq]; rfl) hfly
  size := fun i p hp => by
    obtain ⟨e, he, hpe⟩ := h.size i p hp
    exact ⟨e, sent_newpkt_of_some he, hpe⟩
  flySize := fun p hp => by
    cases hp
    exact ⟨_, sent_newpkt_self s route size, rfl⟩
  small := fun e he => by
    rcases List.mem_append.mp he with hold | hnew
    · exact h.small e hold
    · rw [List.mem_singleton.mp hnew]
      exact hsize

/-! ### A packet that is sent on -/

theorem sent_advance_self {s : Network T} {n : Nat} {e : Traveller T} (h : s.sent[n]? = some e) :
    (s.advance n e).sent[n]? = some { e with nexthop := e.nexthop + 1 } := by
  obtain ⟨hlt, -⟩ := List.getElem?_eq_some_iff.mp h
  exact List.getElem?_set_self hlt

theorem sent_advance_of_ne {s : Network T} {n m : Nat} {e : Traveller T} (h : n ≠ m) :
    (s.advance n e).sent[m]? = s.sent[m]? :=
  List.getElem?_set_ne h

theorem holds_hand {s t : Network T} {i : Nat} {pkt : Packet} (h : s.hand i pkt = some t)
    (n j : Nat) : t.holds n j = s.holds n j + if i = j ∧ pkt.id = n then 1 else 0 := by
  obtain ⟨-, -, hother, -, hcases⟩ := hand_spec h
  by_cases hij : i = j
  · subst hij
    have hcount : ([pkt.id] : List Nat).count n = if i = i ∧ pkt.id = n then 1 else 0 := by
      simp [List.count_singleton]
    rcases hcases with ⟨hp, -, hl⟩ | ⟨hp, -, hl⟩
    · rw [holds, holds, hp, hl, List.map_append, List.count_append, List.map_singleton, hcount]
      omega
    · rw [holds, holds, hp, hl, List.map_append, List.count_append, List.map_singleton, hcount]
      omega
  · rw [if_neg (fun hc => hij hc.1), holds, holds, packetsAt, packetsAt, lostAt, lostAt,
      hother j (fun hc => hij hc.symm), Nat.add_zero]

/-- A packet that is handed to its next hop is there. -/
theorem inPlace_sendOn {s t : Network T} {pkt : Packet} (h : InPlace (some pkt) s)
    (hsend : s.sendOn pkt = some t) : InPlace none t := by
  obtain ⟨e, i, he, hi, hhand⟩ := sendOn_spec hsend
  obtain ⟨hsent, -, hother, -, hcases⟩ := hand_spec hhand
  have hself : t.sent[pkt.id]? = some { e with nexthop := e.nexthop + 1 } := by
    rw [hsent]
    exact sent_advance_self he
  have hrest : ∀ {n : Nat}, pkt.id ≠ n → t.sent[n]? = s.sent[n]? := fun hn => by
    rw [hsent]
    exact sent_advance_of_ne hn
  have hplace : ({ e with nexthop := e.nexthop + 1 } : Traveller T).place = some i := by
    rw [Traveller.place, if_neg (Nat.succ_ne_zero _), Nat.add_sub_cancel]
    exact hi
  -- sizes are those of the entries, which keep theirs
  have hkeep : ∀ {n : Nat} {e' : Traveller T}, s.sent[n]? = some e' →
      ∃ e'' : Traveller T, t.sent[n]? = some e'' ∧ e''.size = e'.size := by
    intro n e' he'
    by_cases hn : pkt.id = n
    · rw [← hn, he] at he'
      cases he'
      exact ⟨{ e with nexthop := e.nexthop + 1 }, hn ▸ hself, rfl⟩
    · exact ⟨e', (hrest hn).trans he', rfl⟩
  refine ⟨fun n j => ?_, fun n e' he' _ => ?_, fun j p hp => ?_, fun p hp => (by cases hp), ?_⟩
  · have hold := h.once n j
    have hholds : t.holds n j = s.holds n j + if i = j ∧ pkt.id = n then 1 else 0 :=
      holds_hand hhand n j
    rw [hholds]
    by_cases hn : pkt.id = n
    · subst hn
      rw [if_neg (fun hc => hc.2 rfl)] at hold
      rw [hold, place, hself, Option.bind_some, hplace]
      simp
    · rw [if_neg (fun hc => hn hc.2), Nat.add_zero, hold, place, place, hrest hn]
      simp [hn]
  · by_cases hn : pkt.id = n
    · rw [← hn, hself] at he'
      cases he'
      exact ⟨i, hplace⟩
    · rw [hrest hn] at he'
      exact h.handed n e' he' fun hc => hn (Option.some.inj hc)
  · -- the packets in an element are those before, and perhaps the one handed over
    have hold : ∀ q ∈ s.packetsAt j, ∃ e', t.sent[q.id]? = some e' ∧ e'.size = q.size := by
      intro q hq
      obtain ⟨e', he', hsize⟩ := h.size j q hq
      obtain ⟨e'', he'', hsize'⟩ := hkeep he'
      exact ⟨e'', he'', hsize'.trans hsize⟩
    by_cases hij : j = i
    · subst hij
      rcases hcases with ⟨hp', -, -⟩ | ⟨hp', -, -⟩
      · rw [hp'] at hp
        rcases List.mem_append.mp hp with hp | hp
        · exact hold p hp
        · obtain ⟨e', he', hsize⟩ := h.flySize pkt rfl
          obtain ⟨e'', he'', hsize'⟩ := hkeep he'
          rw [List.mem_singleton.mp hp]
          exact ⟨e'', he'', hsize'.trans hsize⟩
      · rw [hp'] at hp
        exact hold p hp
    · refine hold p ?_
      rw [packetsAt, hother j hij] at hp
      exact hp
  · rw [hsent]
    intro e' he'
    rcases List.mem_or_eq_of_mem_set he' with hmem | heq
    · exact h.small e' hmem
    · rw [heq]
      exact h.small e (List.mem_of_getElem? he)

/-! ### An event -/

/-- The variables of one element change, and the event list. -/
def withElem (s : Network T) (l : EventList Nat) (i : Nat) (x : (T.kind i).State) : Network T :=
  { s with list := l, elems := Function.update s.elems i x }

section Event

variable {s : Network T} {i now : Nat} {r : (T.kind i).State × List Nat}
  (hr : (T.kind i).component.doNextEvent now (s.elems i) = some r) (l : EventList Nat)
include hr

theorem packetsAt_event : (∀ j ≠ i, (s.withElem l i r.1).packetsAt j = s.packetsAt j) ∧
    ((T.kind i).sends (s.elems i) = none ∧ (s.withElem l i r.1).packetsAt i = s.packetsAt i ∨
      ∃ p p', (T.kind i).sends (s.elems i) = some p' ∧ p'.id = p.id ∧ p'.size = p.size ∧
        s.packetsAt i = p :: (s.withElem l i r.1).packetsAt i) := by
  obtain ⟨-, -, hcases⟩ := Kind.event_spec hr
  refine ⟨fun j hj => ?_, ?_⟩
  · simp only [packetsAt, withElem, Function.update_of_ne hj]
  · simp only [packetsAt, withElem, Function.update_self]
    rcases hcases with ⟨hnone, hsame, -⟩ | ⟨p, p', hsome, hid, hsize, hp, -⟩
    · exact Or.inl ⟨hnone, hsame⟩
    · exact Or.inr ⟨p, p', hsome, hid, hsize, hp⟩

theorem lostAt_event (j : Nat) : (s.withElem l i r.1).lostAt j = s.lostAt j := by
  obtain ⟨-, hlost, -⟩ := Kind.event_spec hr
  by_cases hj : j = i
  · subst hj
    simp only [lostAt, withElem, Function.update_self, hlost]
  · simp only [lostAt, withElem, Function.update_of_ne hj]

/-- The packet that is sent on is gone from the element. -/
theorem holds_event (n j : Nat) : s.holds n j = (s.withElem l i r.1).holds n j +
    if i = j ∧ ((T.kind i).sends (s.elems i)).map Packet.id = some n then 1 else 0 := by
  obtain ⟨hother, hcases⟩ := packetsAt_event hr l
  rw [holds, holds, lostAt_event hr l]
  by_cases hj : j = i
  · subst hj
    rcases hcases with ⟨hnone, hsame⟩ | ⟨p, p', hsome, hid, -, hp⟩
    · rw [hsame, hnone]
      simp
    · rw [hp, hsome, List.map_cons, List.count_cons, Option.map_some, hid]
      simp only [true_and, Option.some.injEq, beq_iff_eq]
      omega
  · rw [hother j hj, if_neg (fun hc => hj hc.1.symm), Nat.add_zero]

/-- A packet that its element sends on is nowhere. -/
theorem inPlace_event (h : InPlace none s) :
    InPlace ((T.kind i).sends (s.elems i)) (s.withElem l i r.1) := by
  obtain ⟨hother, hcases⟩ := packetsAt_event hr l
  have hsub : ∀ j, ∀ p ∈ (s.withElem l i r.1).packetsAt j, p ∈ s.packetsAt j := by
    intro j p hp
    by_cases hj : j = i
    · subst hj
      rcases hcases with ⟨-, hsame⟩ | ⟨q, q', -, -, -, hq⟩
      · rw [← hsame]
        exact hp
      · rw [hq]
        exact List.mem_cons_of_mem _ hp
    · rw [hother j hj] at hp
      exact hp
  refine ⟨fun n j => ?_, fun n e he _ => h.handed n e he (by simp), fun j p hp => ?_,
    fun p hp => ?_, h.small⟩
  · have hold := h.once n j
    have hgone := holds_event hr l n j
    rw [show (s.withElem l i r.1).place n = s.place n from rfl]
    by_cases hfly : ((T.kind i).sends (s.elems i)).map Packet.id = some n
    · -- it was in `i`, and so nowhere else
      rw [if_neg (fun hc => hc.2 hfly)]
      have hhere := holds_event hr l n i
      rw [if_pos ⟨rfl, hfly⟩, h.once n i] at hhere
      have hplace : s.place n = some i := by
        by_contra hne
        rw [if_neg (fun hc => hne hc.1)] at hhere
        omega
      by_cases hij : i = j
      · rw [if_pos ⟨hij, hfly⟩] at hgone
        split_ifs at hold <;> omega
      · rw [if_neg (fun hc => hij (Option.some.inj (hplace.symm.trans hc.1)))] at hold
        omega
    · rw [if_neg (fun hc => hfly hc.2), Nat.add_zero] at hgone
      rw [← hgone, hold]
      simp [hfly]
  · obtain ⟨e, he, hsize⟩ := h.size j p (hsub j p hp)
    exact ⟨e, he, hsize⟩
  · rcases hcases with ⟨hnone, -⟩ | ⟨q, q', hsome, hid, hsz, hq⟩
    · rw [hnone] at hp
      cases hp
    · rw [hsome] at hp
      cases hp
      obtain ⟨e, he, hsize⟩ := h.size i q (by rw [hq]; exact List.mem_cons_self)
      exact ⟨e, by rw [hid]; exact he, hsize.trans hsz.symm⟩

end Event

/-- The event list has no part in it. -/
theorem inPlace_list {s : Network T} {fly : Option Packet} (h : InPlace fly s)
    (l : EventList Nat) : InPlace fly { s with list := l } :=
  ⟨h.once, h.handed, h.size, h.flySize, h.small⟩

/-! ### Steps -/

theorem inPlace_hostAct {s t : Network T} {a : HostAct T} (h : InPlace none s)
    (hact : s.hostAct a = some t) : InPlace none t := by
  cases a with
  | send route flow size =>
    simp only [hostAct] at hact
    split_ifs at hact with hsize
    exact inPlace_sendOn (inPlace_newpkt h hsize) hact
  | timer host time =>
    simp only [hostAct] at hact
    split_ifs at hact
    obtain ⟨l, -, rfl⟩ := Option.map_eq_some_iff.mp hact
    exact inPlace_list h l

/-- What one act of a host keeps, several keep. -/
theorem hostActs_induction {I : Network T → Prop}
    (hstep : ∀ {s a t}, I s → s.hostAct a = some t → I t) {s t : Network T}
    {acts : List (HostAct T)} (h : I s) (hacts : s.hostActs acts = some t) : I t := by
  induction acts generalizing s with
  | nil =>
    cases hacts
    exact h
  | cons a rest ih =>
    obtain ⟨s₁, h₁, hrest⟩ := Option.bind_eq_some_iff.mp hacts
    exact ih (hstep h h₁) hrest

/-- The parts of a dispatch: the event of an element, what it sends on, what the hosts do, and
    when the element has its next events. -/
theorem dispatch_parts {s t : Network T} {acts : List (HostAct T)}
    (h : s.step (.dispatch acts) = some t) :
    ∃ i l r s₁ s₂ l', s.list.next = .event i l ∧ (acts = [] ∨ ¬ (T.kind i).isQueue) ∧
      (T.kind i).component.doNextEvent l.now (s.elems i) = some r ∧
      emit (s.withElem l i r.1) ((T.kind i).sends (s.elems i)) = some s₁ ∧
      s₁.hostActs acts = some s₂ ∧ s₂.list.registerAt i r.2 = some l' ∧
      t = { s₂ with list := l' } := by
  simp only [step] at h
  split at h
  · rename_i i l hnext
    split_ifs at h with hacts
    obtain ⟨r, hr, hrest⟩ := Option.bind_eq_some_iff.mp h
    obtain ⟨s₁, h₁, hrest⟩ := Option.bind_eq_some_iff.mp hrest
    obtain ⟨s₂, h₂, hlast⟩ := Option.bind_eq_some_iff.mp hrest
    obtain ⟨l', hl', rfl⟩ := Option.map_eq_some_iff.mp hlast
    exact ⟨i, l, r, s₁, s₂, l', hnext, hacts, hr, h₁, h₂, hl', rfl⟩
  · cases h

theorem inPlace_emit {s t : Network T} {fly : Option Packet} (h : InPlace fly s)
    (hemit : emit s fly = some t) : InPlace none t := by
  cases fly with
  | none =>
    cases hemit
    exact h
  | some pkt => exact inPlace_sendOn h hemit

theorem inPlace_step {s t : Network T} {a : Act T} (h : InPlace none s)
    (hstep : s.step a = some t) : InPlace none t := by
  cases a with
  | hosts acts => exact hostActs_induction (fun h ha => inPlace_hostAct h ha) h hstep
  | dispatch acts =>
    obtain ⟨i, l, r, s₁, s₂, l', -, -, hr, h₁, h₂, -, rfl⟩ := dispatch_parts hstep
    have hemit := inPlace_emit (inPlace_event hr l h) h₁
    exact inPlace_list (hostActs_induction (fun h ha => inPlace_hostAct h ha) hemit h₂) l'

/-- A packet in an element was handed to it last. -/
theorem InPlace.entry {s : Network T} (h : InPlace none s) {i : Nat} {p : Packet}
    (hp : p ∈ s.packetsAt i) :
    ∃ e k, s.sent[p.id]? = some e ∧ e.size = p.size ∧ e.nexthop = k + 1 ∧
      e.route.hops[k]? = some i := by
  obtain ⟨e, he, hsize⟩ := h.size i p hp
  have hmem : 0 < ((s.packetsAt i).map Packet.id).count p.id :=
    List.count_pos_iff.mpr (List.mem_map_of_mem hp)
  have hplace : s.place p.id = some i := by
    by_contra hne
    have hzero := h.once p.id i
    rw [if_neg (fun hc => hne hc.1), holds] at hzero
    omega
  rw [place, he, Option.bind_some] at hplace
  obtain ⟨k, hk, hi⟩ := Traveller.place_eq_some hplace
  exact ⟨e, k, he, hsize, hk, hi⟩

/-! ## Along every run -/

/-- Every packet is at one place, the hop it was handed to last: in the element or among those it
    dropped, and once.  What is sent on has a next hop, and what is at a host has come to the
    end of its route. -/
structure Placed (s : Network T) : Prop where
  once : ∀ n < s.sent.length, ∃ e k i, s.sent[n]? = some e ∧ e.nexthop = k + 1 ∧
    e.route.hops[k]? = some i ∧ ∀ j, s.holds n j = if j = i then 1 else 0
  nexthop : ∀ i pkt, (T.kind i).sends (s.elems i) = some pkt →
    ∃ e, s.sent[pkt.id]? = some e ∧ e.nexthop < e.route.hops.length
  arrived : ∀ i p, (T.kind i).isHost → p ∈ s.packetsAt i →
    ∃ e, s.sent[p.id]? = some e ∧ e.size = p.size ∧ e.nexthop = e.route.hops.length ∧
      e.route.hops.getLast? = some i

theorem InPlace.placed {s : Network T} (h : InPlace none s) : Placed s where
  once := fun n hn => by
    have he := List.getElem?_eq_getElem hn
    obtain ⟨i, hplace⟩ := h.handed n _ he (by simp)
    obtain ⟨k, hk, hi⟩ := Traveller.place_eq_some hplace
    refine ⟨_, k, i, he, hk, hi, fun j => ?_⟩
    have honce := h.once n j
    rw [place, he, Option.bind_some, hplace] at honce
    simpa [eq_comm] using honce
  nexthop := fun i pkt hsends => by
    obtain ⟨p, rest, hp, hid, -⟩ := Kind.head_of_sends hsends
    obtain ⟨e, k, he, -, hk, hi⟩ := h.entry (show p ∈ s.packetsAt i by
      rw [packetsAt, hp]
      exact List.mem_cons_self)
    obtain ⟨j, hj⟩ := Route.exists_next hi (Kind.not_host_of_sends hsends)
    refine ⟨e, by rw [← hid]; exact he, ?_⟩
    rw [hk]
    exact (List.getElem?_eq_some_iff.mp hj).1
  arrived := fun i p hhost hp => by
    obtain ⟨e, k, he, hsize, hk, hi⟩ := h.entry hp
    have hlen := Route.length_of_host hi hhost
    refine ⟨e, he, hsize, by rw [hk, hlen], ?_⟩
    rw [List.getLast?_eq_getElem?, hlen, Nat.add_sub_cancel]
    exact hi

theorem inPlace_reachable {s : Network T} (h : (system T).Reachable (start T) s) :
    InPlace none s :=
  h.invariant (inPlace_start T) fun _ _ _ hs hstep => inPlace_step hs hstep

/-- In every state that the network reaches, whatever the hosts send and when. -/
theorem once_each {s : Network T} (h : (system T).Reachable (start T) s) : Placed s :=
  (inPlace_reachable h).placed

/-- The three packets of `twoSegments` are at the hosts. -/
theorem once_each_arrivedSegments : Placed arrivedSegments := once_each reachable_arrivedSegments

end Network

end Htsim
end DatacenterNetworking
