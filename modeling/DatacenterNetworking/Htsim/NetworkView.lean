/-
  DatacenterNetworking.Htsim.NetworkView

  A network as one of its elements sees it.

  `run_of_reachable`: whatever the network does, for a queue or a pipe of it this is a run
  of that element alone, in which the others register events and bring packets.  So what
  is proved of one element holds of each of them in the network; `elements_lawful` are
  the laws of the queue and of the pipe.
-/

import DatacenterNetworking.Htsim.BurstBound
import DatacenterNetworking.Htsim.NetworkPlaces

namespace DatacenterNetworking
namespace Htsim

/-! ## Times of 64 bits -/

namespace Kind

theorem receive_times {k : Kind} {now : Nat} {pkt : Packet} {x : k.State}
    {r : k.State × List Nat} (h : k.component.receivePacket now pkt x = some r) :
    ∀ time ∈ r.2, time < 2 ^ 64 := by
  have hmod : ∀ a b, EventList.relTime a b < 2 ^ 64 := fun a b => Nat.mod_lt _ (Nat.two_pow_pos 64)
  intro time htime
  cases k with
  | queue cfg =>
    simp only [component, FifoQueue.component, FifoQueue.receivePacket] at h
    split_ifs at h
    all_goals cases h
    · cases htime
    · rw [List.mem_singleton.mp htime]
      exact hmod _ _
    · cases htime
  | pipe delay =>
    simp only [component, Pipe.component, Pipe.receivePacket] at h
    cases h
    split_ifs at htime
    · rw [List.mem_singleton.mp htime]
      exact hmod _ _
    · cases htime
  | host =>
    cases h
    cases htime

/-- The times that a pipe has stored are of 64 bits. -/
def Stored : (k : Kind) → k.State → Prop
  | .queue _, _ => True
  | .pipe _, p => ∀ e ∈ p.inflight, e.1 < 2 ^ 64
  | .host, _ => True

theorem stored_of_host {k : Kind} (h : k.isHost) (x : k.State) : k.Stored x := by
  cases k with
  | queue cfg => trivial
  | pipe delay => cases h
  | host => trivial

theorem event_times {k : Kind} {now : Nat} {x : k.State} {r : k.State × List Nat}
    (hx : k.Stored x) (h : k.component.doNextEvent now x = some r) :
    ∀ time ∈ r.2, time < 2 ^ 64 := by
  intro time htime
  cases k with
  | queue cfg =>
    cases hq : FifoQueue.enqueued x with
    | nil =>
      simp only [component, FifoQueue.component, FifoQueue.doNextEvent, hq] at h
      cases h
    | cons p rest =>
      simp only [component, FifoQueue.component, FifoQueue.doNextEvent, hq] at h
      cases h
      obtain ⟨q, -, rfl⟩ := Option.map_eq_some_iff.mp (Option.mem_toList.mp htime)
      exact Nat.mod_lt _ (Nat.two_pow_pos 64)
  | pipe delay =>
    cases hp : Pipe.inflight x with
    | nil =>
      simp only [component, Pipe.component, Pipe.doNextEvent, hp] at h
      cases h
      cases htime
    | cons e rest =>
      simp only [component, Pipe.component, Pipe.doNextEvent, hp] at h
      cases h
      obtain ⟨q, hq, rfl⟩ := Option.map_eq_some_iff.mp (Option.mem_toList.mp htime)
      exact hx q (by rw [hp]; exact List.mem_cons_of_mem _ (List.mem_of_head? hq))
  | host =>
    cases h
    cases htime

end Kind

/-! ## One element in a network -/

namespace Network

variable {T : Topology}

/-- What element `i` sees. -/
def seen (i : Nat) (s : Network T) : Component.State (T.kind i).State where
  list := s.list.view i
  comp := s.elems i

/-- A packet that arrives is no larger than packets may be. -/
def Small (T : Topology) : Component.Act → Prop
  | .arrive pkt => pkt.size ≤ T.mtu
  | _ => True

/-- For element `i`, the network goes from one state to another by steps of the element. -/
def Moves (i : Nat) (s t : Network T) : Prop :=
  ∃ bs, (∀ b ∈ bs, Small T b) ∧ (T.kind i).component.system.run (seen i s) bs = some (seen i t)

/-- For element `i` it does so by registrations of the others. -/
def Quiet (i : Nat) (s t : Network T) : Prop :=
  t.elems i = s.elems i ∧ ∃ regs, (s.list.view i).registerOthers regs = some (t.list.view i)

variable {i : Nat} {s t u : Network T}

theorem Moves.refl (i : Nat) (s : Network T) : Moves i s s :=
  ⟨[], fun _ hb => absurd hb List.not_mem_nil, rfl⟩

theorem Moves.trans (hst : Moves i s t) (htu : Moves i t u) : Moves i s u := by
  obtain ⟨bs, hbs, hrun⟩ := hst
  obtain ⟨bs', hbs', hrun'⟩ := htu
  refine ⟨bs ++ bs', fun b hb => ?_, Lts.run_trans hrun hrun'⟩
  rcases List.mem_append.mp hb with hb | hb
  · exact hbs b hb
  · exact hbs' b hb

theorem Quiet.refl (i : Nat) (s : Network T) : Quiet i s s := ⟨rfl, [], rfl⟩

theorem Quiet.trans (hst : Quiet i s t) (htu : Quiet i t u) : Quiet i s u := by
  obtain ⟨helem, regs, hregs⟩ := hst
  obtain ⟨helem', regs', hregs'⟩ := htu
  exact ⟨helem'.trans helem, regs ++ regs', EventList.registerOthers_append hregs hregs'⟩

/-- Registrations of others are steps. -/
theorem run_registers {σ : Type} (c : Component σ) (x : σ) {l l' : EventList Source}
    {regs : List (Nat × UInt64)} (h : l.registerOthers regs = some l') :
    c.system.run ⟨l, x⟩ (regs.map fun r => .register r.1 r.2) = some ⟨l', x⟩ := by
  induction regs generalizing l with
  | nil =>
    cases h
    rfl
  | cons r rest ih =>
    obtain ⟨l₁, h₁, hrest⟩ := Option.bind_eq_some_iff.mp h
    rw [List.map_cons, Lts.run_cons]
    simp only [Component.system, Component.step, h₁, Option.map_some, Option.bind_some]
    exact ih hrest

theorem Quiet.moves (h : Quiet i s t) : Moves i s t := by
  obtain ⟨helem, regs, hregs⟩ := h
  refine ⟨regs.map fun r => .register r.1 r.2, fun b hb => ?_, ?_⟩
  · obtain ⟨r, -, rfl⟩ := List.mem_map.mp hb
    trivial
  · rw [seen, seen, helem]
    exact run_registers _ _ hregs

/-- Another element asks for events. -/
theorem quiet_registerAt {j : Nat} {times : List Nat} {l : EventList Nat} (hj : j ≠ i)
    (htimes : ∀ time ∈ times, time < 2 ^ 64) (hl : s.list.registerAt j times = some l) :
    Quiet i s { s with list := l } :=
  ⟨rfl, _, EventList.registerOthers_view hj htimes hl⟩

/-- Another element gets a packet. -/
theorem quiet_hand {j : Nat} {pkt : Packet} (hj : j ≠ i) (h : s.hand j pkt = some t) :
    Quiet i s t := by
  obtain ⟨r, hr, hlist⟩ := Option.bind_eq_some_iff.mp h
  obtain ⟨l, hl, rfl⟩ := Option.map_eq_some_iff.mp hlist
  exact ⟨Function.update_of_ne hj.symm _ _, _,
    EventList.registerOthers_view hj (Kind.receive_times hr) hl⟩

/-- The element itself does. -/
theorem moves_hand {pkt : Packet} (hsize : pkt.size ≤ T.mtu) (h : s.hand i pkt = some t) :
    Moves i s t := by
  obtain ⟨r, hr, hlist⟩ := Option.bind_eq_some_iff.mp h
  obtain ⟨l, hl, rfl⟩ := Option.map_eq_some_iff.mp hlist
  refine ⟨[.arrive pkt], fun b hb => ?_, Lts.run_one ?_⟩
  · rw [List.mem_singleton.mp hb]
    exact hsize
  · simp only [Component.system, Component.step, seen, EventList.now_view, hr, Option.bind_some,
      EventList.registerSelf_view hl, Option.map_some, Function.update_self]

/-- A packet is sent on. -/
theorem moves_sendOn {pkt : Packet} (hsize : pkt.size ≤ T.mtu) (h : s.sendOn pkt = some t) :
    Moves i s t := by
  obtain ⟨e, j, -, -, hhand⟩ := sendOn_spec h
  by_cases hj : j = i
  · subst hj
    exact moves_hand (s := s.advance pkt.id e) hsize hhand
  · exact (quiet_hand (s := s.advance pkt.id e) hj hhand).moves

/-- To another element. -/
theorem quiet_sendOn {pkt : Packet}
    (hnext : ∀ e, s.sent[pkt.id]? = some e → e.route.hops[e.nexthop]? ≠ some i)
    (h : s.sendOn pkt = some t) : Quiet i s t := by
  obtain ⟨e, j, he, hj, hhand⟩ := sendOn_spec h
  have hne : j ≠ i := fun hij => hnext e he (hij ▸ hj)
  exact quiet_hand (s := s.advance pkt.id e) hne hhand

/-- A new packet goes to a queue first. -/
theorem quiet_send {route : Route T} {flow size : Nat} (hi : ¬ (T.kind i).isQueue)
    (h : (s.newpkt route size).sendOn { flow := flow, size := size, id := s.sent.length } =
      some t) :
    Quiet i s t := by
  refine quiet_sendOn (s := s.newpkt route size) (fun e he hhop => hi ?_) h
  rw [sent_newpkt_self] at he
  cases he
  exact route.first i (by rw [List.head?_eq_getElem?]; exact hhop)

theorem moves_hostAct {a : HostAct T} (hi : ¬ (T.kind i).isHost) (h : s.hostAct a = some t) :
    Moves i s t ∧ (¬ (T.kind i).isQueue → Quiet i s t) := by
  cases a with
  | send route flow size =>
    simp only [hostAct] at h
    split_ifs at h with hsize
    exact ⟨moves_sendOn (s := s.newpkt route size) hsize h, fun hq => quiet_send hq h⟩
  | timer host time =>
    simp only [hostAct] at h
    split_ifs at h with hhost
    obtain ⟨l, hl, rfl⟩ := Option.map_eq_some_iff.mp h
    have hne : host ≠ i := fun heq => hi (heq ▸ hhost)
    have hquiet : Quiet i s { s with list := l } :=
      quiet_registerAt hne (fun x hx => by
        rw [List.mem_singleton.mp hx]
        exact time.toNat_lt) hl
    exact ⟨hquiet.moves, fun _ => hquiet⟩

theorem moves_hostActs {acts : List (HostAct T)} (hi : ¬ (T.kind i).isHost)
    (h : s.hostActs acts = some t) : Moves i s t :=
  hostActs_induction (I := fun t => Moves i s t)
    (fun hs ha => hs.trans (moves_hostAct hi ha).1) (Moves.refl i s) h

theorem quiet_hostActs {acts : List (HostAct T)} (hi : ¬ (T.kind i).isHost)
    (hq : acts = [] ∨ ¬ (T.kind i).isQueue) (h : s.hostActs acts = some t) : Quiet i s t := by
  rcases hq with rfl | hq
  · cases h
    exact Quiet.refl i _
  · exact hostActs_induction (I := fun t => Quiet i s t)
      (fun hs ha => hs.trans ((moves_hostAct hi ha).2 hq)) (Quiet.refl i s) h

/-! ## Events -/

/-- Between the steps: the packets are in their places, and what a queue or pipe has gone through
    is a run of it. -/
structure Projects (s : Network T) : Prop where
  inPlace : InPlace none s
  runs : ∀ i, ¬ (T.kind i).isHost → ∃ bs, (∀ b ∈ bs, Small T b) ∧
    (T.kind i).component.system.run ⟨EventList.get, (T.kind i).new⟩ bs = some (seen i s)

theorem projects_start (T : Topology) : Projects (start T) where
  inPlace := inPlace_start T
  runs := fun _ _ => ⟨[], fun _ hb => absurd hb List.not_mem_nil, rfl⟩

/-- A pipe refines its line in every run. -/
theorem pipeOk_of_run {delay : UInt64} {p : Component.State Pipe} {bs : List Component.Act}
    (h : (Pipe.component delay).system.run Pipe.start bs = some p) :
    ∃ d, Pipe.Refines delay p d :=
  Lts.run_induction (I := fun p => ∃ d, Pipe.Refines delay p d)
    (fun _ _ _ ⟨_, h⟩ hstep => Pipe.refines_step h hstep) ⟨_, Pipe.refines_start delay⟩ h

theorem stored_of_run {k : Kind} {c : Component.State k.State} {bs : List Component.Act}
    (h : k.component.system.run ⟨EventList.get, k.new⟩ bs = some c) : k.Stored c.comp := by
  cases k with
  | queue cfg => trivial
  | host => trivial
  | pipe delay =>
    obtain ⟨d, hd⟩ := pipeOk_of_run h
    intro e he
    have hin : e ∈ Pipe.inflight c.comp := he
    rw [hd.inflight] at hin
    obtain ⟨x, -, rfl⟩ := List.mem_map.mp hin
    exact Nat.mod_lt _ (Nat.two_pow_pos 64)

/-- The size of what is sent on. -/
theorem InPlace.small_of_fly {pkt : Packet} (h : InPlace (some pkt) s) : pkt.size ≤ T.mtu := by
  obtain ⟨e, he, hsize⟩ := h.flySize pkt rfl
  rw [← hsize]
  exact h.small e (List.mem_of_getElem? he)

theorem moves_emit {fly : Option Packet} (h : InPlace fly s) (hemit : emit s fly = some t) :
    Moves i s t := by
  cases fly with
  | none =>
    cases hemit
    exact Moves.refl i s
  | some pkt => exact moves_sendOn h.small_of_fly hemit

/-- An element sends packets on to others. -/
theorem quiet_emit {l : EventList Nat} {x : (T.kind i).State} (h : InPlace none s)
    (hemit : emit (s.withElem l i x) ((T.kind i).sends (s.elems i)) = some t) :
    Quiet i (s.withElem l i x) t := by
  cases hsends : (T.kind i).sends (s.elems i) with
  | none =>
    rw [hsends] at hemit
    cases hemit
    exact Quiet.refl i _
  | some pkt =>
    rw [hsends] at hemit
    obtain ⟨p, rest, hp, hid, -⟩ := Kind.head_of_sends hsends
    obtain ⟨e, k, he, -, hk, hi⟩ := h.entry (show p ∈ s.packetsAt i by
      rw [packetsAt, hp]
      exact List.mem_cons_self)
    refine quiet_sendOn (fun e' he' hhop => ?_) hemit
    -- no element is on its route twice
    have hsame : s.sent[pkt.id]? = some e' := he'
    rw [← hid, he] at hsame
    cases hsame
    obtain ⟨hlt, hget⟩ := List.getElem?_eq_some_iff.mp hi
    obtain ⟨hlt', hget'⟩ := List.getElem?_eq_some_iff.mp hhop
    have heq := (List.Nodup.getElem_inj_iff e.route.nodup).mp (hget.trans hget'.symm)
    omega

/-- A dispatch, for the element whose event it is and for another one. -/
theorem moves_dispatch {acts : List (HostAct T)} (h : Projects s) (hi : ¬ (T.kind i).isHost)
    (hstep : s.step (.dispatch acts) = some t) : Moves i s t := by
  obtain ⟨j, l, r, s₁, s₂, l', hnext, hacts, hr, h₁, h₂, hl', rfl⟩ := dispatch_parts hstep
  have hfly := inPlace_event hr l h.inPlace
  have hview : (s.list.view i).next = .event (EventList.seenBy i j) (l.view i) :=
    EventList.next_mapSrc_event hnext
  by_cases hj : j = i
  · subst hj
    obtain ⟨helem, regs, hregs⟩ :=
      (quiet_emit h.inPlace h₁).trans (quiet_hostActs hi hacts h₂)
    refine ⟨[.dispatch regs], fun b hb => ?_, Lts.run_one ?_⟩
    · rw [List.mem_singleton.mp hb]
      trivial
    · rw [EventList.seenBy_self] at hview
      have hcomp : s₂.elems j = r.1 := by
        rw [helem]
        exact Function.update_self j r.1 s.elems
      have hregs' : (l.view j).registerOthers regs = some (s₂.list.view j) := hregs
      simp only [Component.system, Component.step, seen, hview, EventList.now_view, hr,
        Option.bind_some, hregs', EventList.registerSelf_view hl', Option.map_some, hcomp]
  · -- the list goes on to the event, then the element may get the packet
    have hfirst : Moves i s (s.withElem l j r.1) := by
      refine ⟨[.dispatch []], fun b hb => ?_, Lts.run_one ?_⟩
      · rw [List.mem_singleton.mp hb]
        trivial
      · rw [EventList.seenBy_ne hj] at hview
        simp only [Component.system, Component.step, seen, hview, EventList.registerOthers,
          Option.map_some, withElem, Function.update_of_ne (Ne.symm hj)]
    have htimes : ∀ time ∈ r.2, time < 2 ^ 64 := by
      refine Kind.event_times ?_ hr
      by_cases hhost : (T.kind j).isHost
      · exact Kind.stored_of_host hhost _
      · obtain ⟨bs, -, hrun⟩ := h.runs j hhost
        exact stored_of_run hrun
    have hlast : Quiet i s₂ { s₂ with list := l' } := quiet_registerAt hj htimes hl'
    exact ((hfirst.trans (moves_emit hfly h₁)).trans (moves_hostActs hi h₂)).trans hlast.moves

theorem projects_step {a : Act T} (h : Projects s) (hstep : s.step a = some t) : Projects t where
  inPlace := inPlace_step h.inPlace hstep
  runs := fun i hi => by
    obtain ⟨bs, hbs, hrun⟩ := h.runs i hi
    have hmoves : Moves i s t := by
      cases a with
      | hosts acts => exact moves_hostActs hi hstep
      | dispatch acts => exact moves_dispatch h hi hstep
    obtain ⟨bs', hbs', hrun'⟩ := hmoves
    refine ⟨bs ++ bs', fun b hb => ?_, Lts.run_trans hrun hrun'⟩
    rcases List.mem_append.mp hb with hb | hb
    · exact hbs b hb
    · exact hbs' b hb

/-! ## Every run of the network is one of each element -/

theorem projects_reachable (h : (system T).Reachable (start T) s) : Projects s :=
  h.invariant (projects_start T) fun _ _ _ hs hstep => projects_step hs hstep

/-- What an element has seen is a run of it, in which no packet is larger than packets may be. -/
theorem run_of_reachable (h : (system T).Reachable (start T) s) {i : Nat}
    (hi : ¬ (T.kind i).isHost) : ∃ bs, (∀ b ∈ bs, Small T b) ∧
      (T.kind i).component.system.run ⟨EventList.get, (T.kind i).new⟩ bs = some (seen i s) :=
  (projects_reachable h).runs i hi

/-! ## What that says of a queue and of a pipe -/

section Laws

variable {cfg : QueueCfg} {c c' : Component.State FifoQueue}

/-- A queue refines its line, and its packets are small. -/
def QueueOk (T : Topology) (cfg : QueueCfg) (c : Component.State FifoQueue) : Prop :=
  (∃ d, FifoQueue.Refines cfg c d) ∧ ∀ p ∈ c.comp.enqueued, p.size ≤ T.mtu

theorem QueueOk.fits {a : Component.Act}
    (hmtu : cfg.maxsize + T.mtu < 2 ^ 64 ∧ T.mtu * cfg.psPerByte < 2 ^ 64)
    (h : QueueOk T cfg c) (ha : Small T a) : FifoQueue.Fits cfg c a := by
  obtain ⟨⟨d, hd⟩, hsmall⟩ := h
  have hshort : ∀ {size : Nat}, size ≤ T.mtu → size * cfg.psPerByte < 2 ^ 64 := fun hsize =>
    (Nat.mul_le_mul_right _ hsize).trans_lt hmtu.2
  cases a with
  | register id time => trivial
  | arrive pkt =>
    intro _
    have hsize : pkt.size ≤ T.mtu := ha
    have hle := hd.size_le
    exact ⟨by omega, fun _ => hshort hsize⟩
  | dispatch others =>
    intro l _ pkt hpkt
    exact hshort (hsmall pkt (List.mem_of_mem_tail (List.mem_of_mem_head? hpkt)))

theorem queueOk_step {a : Component.Act}
    (hmtu : cfg.maxsize + T.mtu < 2 ^ 64 ∧ T.mtu * cfg.psPerByte < 2 ^ 64)
    (h : QueueOk T cfg c) (ha : Small T a) (hstep : (FifoQueue.component cfg).step c a = some c') :
    QueueOk T cfg c' := by
  have hfits := h.fits hmtu ha
  obtain ⟨⟨d, hd⟩, hsmall⟩ := h
  refine ⟨FifoQueue.refines_step hd hfits hstep, fun p hp => ?_⟩
  by_cases harrive : ∃ pkt, a = .arrive pkt
  · obtain ⟨pkt, rfl⟩ := harrive
    rcases FifoQueue.arrive_cases hstep with ⟨-, rfl⟩ | ⟨-, l, -, rfl⟩
    · exact hsmall p hp
    · rcases List.mem_append.mp hp with hold | hnew
      · exact hsmall p hold
      · rw [List.mem_singleton.mp hnew]
        exact ha
  by_cases hself : ∃ others l, a = .dispatch others ∧ c.list.next = .event .self l
  · obtain ⟨others, l, rfl, hnext⟩ := hself
    obtain ⟨pkt, hqueue, -⟩ := FifoQueue.departure_cases hd hnext hstep
    exact hsmall p (by rw [hqueue]; exact List.mem_cons_of_mem _ hp)
  · have hsame := FifoQueue.comp_of_idle (fun others l ha hnext => hself ⟨others, l, ha, hnext⟩)
      (fun pkt ha => harrive ⟨pkt, ha⟩) hstep
    rw [hsame] at hp
    exact hsmall p hp

/-- The law of each kind. -/
def Lawful : (k : Kind) → Component.State k.State → Prop
  | .queue cfg, c => FifoQueue.Serves cfg c
  | .pipe delay, c => Pipe.Delays delay c
  | .host, _ => True

theorem queueOk_of_run {bs : List Component.Act}
    (hmtu : cfg.maxsize + T.mtu < 2 ^ 64 ∧ T.mtu * cfg.psPerByte < 2 ^ 64)
    (hbs : ∀ b ∈ bs, Small T b)
    (h : (FifoQueue.component cfg).system.run FifoQueue.start bs = some c) : QueueOk T cfg c :=
  Lts.run_induction_along (I := QueueOk T cfg) (G := fun _ a => Small T a)
    (fun _ _ _ hok ha hstep => queueOk_step hmtu hok ha hstep)
    ⟨⟨_, FifoQueue.refines_start cfg⟩, fun _ hp => absurd hp List.not_mem_nil⟩
    (Lts.along_of_forall_mem hbs) h

theorem lawful_of_run {k : Kind} {c : Component.State k.State} {bs : List Component.Act}
    (hmtu : ∀ cfg, k = .queue cfg →
      cfg.maxsize + T.mtu < 2 ^ 64 ∧ T.mtu * cfg.psPerByte < 2 ^ 64)
    (hbs : ∀ b ∈ bs, Small T b)
    (h : k.component.system.run ⟨EventList.get, k.new⟩ bs = some c) : Lawful k c := by
  cases k with
  | queue cfg =>
    obtain ⟨⟨d, hd⟩, -⟩ := queueOk_of_run (hmtu cfg rfl) hbs h
    exact FifoQueue.serves_of_refines hd
  | pipe delay =>
    obtain ⟨d, hd⟩ := pipeOk_of_run h
    exact Pipe.delays_of_refines hd
  | host => trivial

end Laws

theorem lawful_of_host {k : Kind} (h : k.isHost) (c : Component.State k.State) : Lawful k c := by
  cases k with
  | queue cfg => cases h
  | pipe delay => cases h
  | host => trivial

/-- What a queue or pipe of a network sees is a run of its own.  So every queue serves in order at
    its rate, and every pipe delays what it gets by its delay, whatever the others do. -/
theorem elements_lawful (h : (system T).Reachable (start T) s) (i : Nat) :
    (¬ (T.kind i).isHost → ∃ bs, (∀ b ∈ bs, Small T b) ∧
      (T.kind i).component.system.run ⟨EventList.get, (T.kind i).new⟩ bs = some (seen i s)) ∧
    Lawful (T.kind i) (seen i s) := by
  refine ⟨fun hi => run_of_reachable h hi, ?_⟩
  by_cases hi : (T.kind i).isHost
  · exact lawful_of_host hi _
  · obtain ⟨bs, hbs, hrun⟩ := run_of_reachable h hi
    exact lawful_of_run (fun cfg hk => T.fits hk) hbs hrun

/-- `queueFwd` has served two segments. -/
theorem elements_lawful_queueFwd :
    (∃ bs, (∀ b ∈ bs, Small singleLink b) ∧ (FifoQueue.component linkQueue).system.run
      FifoQueue.start bs = some (seen 0 arrivedSegments)) ∧
    FifoQueue.Serves linkQueue (seen 0 arrivedSegments) := by
  obtain ⟨hrun, hserves⟩ := elements_lawful reachable_arrivedSegments 0
  exact ⟨hrun Bool.false_ne_true, hserves⟩

end Network

end Htsim
end DatacenterNetworking
