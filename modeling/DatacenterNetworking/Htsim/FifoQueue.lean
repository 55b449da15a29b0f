/-
  DatacenterNetworking.Htsim.FifoQueue

  The plain queue (`queue.cpp`).  It serves one packet at a time and has itself
  called when that is done.

  The law of such a server: the i-th packet it accepts departs at
  `d_i = max(a_i, d_(i-1)) + size_i * _ps_per_byte` (`departures`).

  `serves_iff_fits`: the queue obeys it, and drops exactly what does not fit, in
  every run in which no sum of sizes and no service time needs more than 64 bits;
  and only in these.
-/

import DatacenterNetworking.Htsim.Component

namespace DatacenterNetworking
namespace Htsim

/-- The arguments of the constructor. -/
structure QueueCfg where
  bitrate : Nat
  maxsize : Nat
  bitrate_pos : 0 < bitrate
  bitrate_le : bitrate ≤ 8 * 10 ^ 12
  /-- A `mem_b`. -/
  maxsize_lt : maxsize < 2 ^ 64

/-- `_ps_per_byte`. -/
def QueueCfg.psPerByte (cfg : QueueCfg) : Nat := 8 * 10 ^ 12 / cfg.bitrate

/-- `Queue`, with the packets oldest first.  `accepted`, `departed` and `dropped` are histories
    of the packets and the times, `sentOn` is one of the packets as they are sent on. -/
structure FifoQueue where
  enqueued : List Packet
  queuesize : Nat
  accepted : List (Nat × Packet)
  departed : List (Nat × Packet)
  dropped : List (Nat × Packet)
  sentOn : List Packet
  deriving DecidableEq, Repr

namespace FifoQueue

/-- An empty queue. -/
def new : FifoQueue where
  enqueued := []
  queuesize := 0
  accepted := []
  departed := []
  dropped := []
  sentOn := []

/-- `Queue::drainTime`. -/
def drainTime (cfg : QueueCfg) (pkt : Packet) : Nat := pkt.size * cfg.psPerByte % 2 ^ 64

/-- `Queue::beginService`: the time it asks for. -/
def beginService (cfg : QueueCfg) (now : Nat) (pkt : Packet) : Nat :=
  EventList.relTime now (drainTime cfg pkt)

/-- `Queue::receivePacket`. -/
def receivePacket (cfg : QueueCfg) (now : Nat) (pkt : Packet) (q : FifoQueue) :
    Option (FifoQueue × List Nat) :=
  -- a size is a `mem_b`
  if 2 ^ 64 ≤ pkt.size then none
  else if cfg.maxsize < (q.queuesize + pkt.size) % 2 ^ 64 then
    some ({ q with dropped := q.dropped ++ [(now, pkt)] }, [])
  else
    some ({ q with
        enqueued := q.enqueued ++ [pkt]
        queuesize := (q.queuesize + pkt.size) % 2 ^ 64
        accepted := q.accepted ++ [(now, pkt)] },
      if q.enqueued = [] then [beginService cfg now pkt] else [])

/-- `Queue::doNextEvent`, which is `completeService`. -/
def doNextEvent (cfg : QueueCfg) (now : Nat) (q : FifoQueue) : Option (FifoQueue × List Nat) :=
  match q.enqueued with
  | [] => none
  | pkt :: rest =>
      let queuesize := (q.queuesize + 2 ^ 64 - pkt.size) % 2 ^ 64
      some ({ q with
          enqueued := rest
          queuesize := queuesize
          departed := q.departed ++ [(now, pkt)]
          sentOn := q.sentOn ++ [applyEcnMark cfg.bitrate queuesize pkt] },
        (rest.head?.map (beginService cfg now)).toList)

/-- A queue of the simulation. -/
def component (cfg : QueueCfg) : Component FifoQueue where
  receivePacket := receivePacket cfg
  doNextEvent := doNextEvent cfg

/-- Before the first event. -/
def start : Component.State FifoQueue where
  list := EventList.get
  comp := new

/-! ## The law -/

/-- The times at which the packets accepted depart, when the one before them did at `d`. -/
def departures (ps : Nat) : Nat → List (Nat × Packet) → List (Nat × Packet)
  | _, [] => []
  | d, (a, pkt) :: rest =>
      (max a d + pkt.size * ps, pkt) :: departures ps (max a d + pkt.size * ps) rest

/-- The bytes in the queue. -/
def bytes (q : FifoQueue) : Nat := (q.enqueued.map Packet.size).sum

/-- The packets that have not departed yet, with their times. -/
def due (cfg : QueueCfg) (q : FifoQueue) : List (Nat × Packet) :=
  (departures cfg.psPerByte 0 q.accepted).drop q.departed.length

/-- The accepted packets depart once, in order and at their times; the others are in the queue;
    the event list holds one event for it, at the time the first of these departs, or none; and
    the size is that of the packets in it.  No assertion fails unless a packet departs after the
    last `uint64_t`. -/
structure Serves (cfg : QueueCfg) (s : Component.State FifoQueue) : Prop where
  departed : s.comp.departed =
    (departures cfg.psPerByte 0 s.comp.accepted).take s.comp.departed.length
  enqueued : s.comp.enqueued = (s.comp.due cfg).map Prod.snd
  event : s.list.ownEvents = ((s.comp.due cfg).head?.map Prod.fst).toList
  size_eq : s.comp.queuesize = s.comp.bytes
  size_le : s.comp.queuesize ≤ cfg.maxsize
  arrives : ∀ pkt, (component cfg).step s (.arrive pkt) = none →
    2 ^ 64 ≤ pkt.size ∨ 2 ^ 64 ≤ s.list.now + pkt.size * cfg.psPerByte
  dispatches : (component cfg).step s (.dispatch []) = none →
    s.list.pendingsources = [] ∨ ∃ e ∈ s.comp.due cfg, 2 ^ 64 ≤ e.1

/-- No step needs more than 64 bits: neither the size of the queue with a packet it takes, nor
    the service of the packet that begins it. -/
def Fits (cfg : QueueCfg) (s : Component.State FifoQueue) : Component.Act → Prop
  | .arrive pkt => (s.comp.queuesize + pkt.size) % 2 ^ 64 ≤ cfg.maxsize →
      s.comp.queuesize + pkt.size < 2 ^ 64 ∧
        (s.comp.enqueued = [] → pkt.size * cfg.psPerByte < 2 ^ 64)
  | .dispatch _ => ∀ l, s.list.next = .event .self l →
      ∀ pkt ∈ s.comp.enqueued.tail.head?, pkt.size * cfg.psPerByte < 2 ^ 64
  | .register _ _ => True

/-! ### Departure times -/

/-- The time of the last element, or `d`. -/
def lastTime (d : Nat) (l : List (Nat × Packet)) : Nat := l.foldl (fun _ e => e.1) d

theorem departures_append (ps d : Nat) (acc : List (Nat × Packet)) (a : Nat) (pkt : Packet) :
    departures ps d (acc ++ [(a, pkt)]) =
      departures ps d acc ++
        [(max a (lastTime d (departures ps d acc)) + pkt.size * ps, pkt)] := by
  induction acc generalizing d with
  | nil => rfl
  | cons x rest ih =>
    obtain ⟨a₀, p₀⟩ := x
    rw [List.cons_append, departures, departures, List.cons_append, ih]
    rfl

/-- The last time is the first, or that of an element. -/
theorem lastTime_mem (d : Nat) (l : List (Nat × Packet)) :
    lastTime d l = d ∧ l = [] ∨ ∃ e ∈ l, lastTime d l = e.1 := by
  induction l generalizing d with
  | nil => exact Or.inl ⟨rfl, rfl⟩
  | cons x rest ih =>
    right
    rcases ih x.1 with ⟨hlast, -⟩ | ⟨e, he, hlast⟩
    · exact ⟨x, List.mem_cons_self, hlast⟩
    · exact ⟨e, List.mem_cons_of_mem _ he, hlast⟩

/-- In a sorted list it is the largest. -/
theorem le_lastTime {d : Nat} {l : List (Nat × Packet)}
    (hsorted : l.Pairwise fun a b => a.1 ≤ b.1) {e : Nat × Packet} (he : e ∈ l) :
    e.1 ≤ lastTime d l := by
  induction l generalizing d with
  | nil => cases he
  | cons x rest ih =>
    obtain ⟨hx, hrest⟩ := List.pairwise_cons.mp hsorted
    rcases List.mem_cons.mp he with heq | he
    · rw [heq]
      rcases lastTime_mem x.1 rest with ⟨hlast, -⟩ | ⟨y, hy, hlast⟩
      · exact hlast.ge
      · exact (hx y hy).trans hlast.ge
    · exact ih hrest he

/-- A packet departs its service time after the one before it, or after its arrival. -/
theorem departures_consecutive {ps d : Nat} {acc pre post : List (Nat × Packet)}
    {x y : Nat × Packet} (h : departures ps d acc = pre ++ x :: y :: post) :
    ∃ e ∈ acc, y.1 = max e.1 x.1 + y.2.size * ps := by
  -- along the arrivals, up to the one that `x` departs for
  induction acc generalizing d pre with
  | nil =>
    rw [departures] at h
    exact absurd h.symm (List.append_ne_nil_of_right_ne_nil _ (List.cons_ne_nil _ _))
  | cons z rest ih =>
    obtain ⟨a, pkt⟩ := z
    rw [departures] at h
    cases pre with
    | nil =>
      obtain ⟨hx, hrest⟩ := List.cons.inj h
      cases rest with
      | nil => cases hrest
      | cons z' rest' =>
        obtain ⟨a', pkt'⟩ := z'
        rw [departures] at hrest
        obtain ⟨hy, -⟩ := List.cons.inj hrest
        refine ⟨(a', pkt'), by simp, ?_⟩
        rw [← hy, ← hx]
    | cons w pre =>
      obtain ⟨-, hrest⟩ := List.cons.inj h
      obtain ⟨e, he, hy⟩ := ih hrest
      exact ⟨e, List.mem_cons_of_mem _ he, hy⟩

/-! ### The line of packets that wait for their departure -/

/-- The queue refines a line in which the packets have their departure times from the start. -/
structure Refines (cfg : QueueCfg) (s : Component.State FifoQueue) (d : DueLine Packet) :
    Prop where
  follows : Follows s.list d
  left : d.left = s.comp.departed
  entered : d.entered = departures cfg.psPerByte 0 s.comp.accepted
  line : s.comp.enqueued = d.line.map Prod.snd
  arrived : ∀ a ∈ s.comp.accepted, a.1 ≤ s.list.now
  size_eq : s.comp.queuesize = s.comp.bytes
  size_le : s.comp.queuesize ≤ cfg.maxsize

theorem refines_start (cfg : QueueCfg) : Refines cfg start DueLine.empty where
  follows := follows_get
  left := rfl
  entered := rfl
  line := rfl
  arrived := fun _ ha => absurd ha List.not_mem_nil
  size_eq := rfl
  size_le := Nat.zero_le _

variable {cfg : QueueCfg} {s t : Component.State FifoQueue} {d : DueLine Packet}

theorem enqueued_eq_nil (h : Refines cfg s d) : s.comp.enqueued = [] ↔ d.line = [] := by
  rw [h.line, List.map_eq_nil_iff]

theorem due_eq_line (h : Refines cfg s d) : s.comp.due cfg = d.line := by
  rw [due, ← h.entered, ← h.left, ← d.line_eq_drop]

/-- The packet before the next one has departed, when the queue is empty. -/
theorem lastTime_le (h : Refines cfg s d) (hline : d.line = []) :
    lastTime 0 (departures cfg.psPerByte 0 s.comp.accepted) ≤ s.list.now := by
  rcases lastTime_mem 0 (departures cfg.psPerByte 0 s.comp.accepted) with
    ⟨hlast, -⟩ | ⟨e, he, hlast⟩
  · rw [hlast]
    exact Nat.zero_le _
  · rw [← h.entered, DueLine.entered, hline, List.append_nil] at he
    rw [hlast, ← h.follows.now]
    exact h.follows.ok.past e he

/-- The packet served has not departed. -/
theorem now_le_of_line {e : Nat × Packet} {rest : List (Nat × Packet)} (h : Refines cfg s d)
    (hline : d.line = e :: rest) : s.list.now ≤ e.1 := by
  rw [← h.follows.now]
  exact h.follows.ok.future e (by rw [hline]; exact List.mem_cons_self)

/-- When one packet departs, the next one departs its service time later. -/
theorem next_due {now : Nat} {a : Packet} {e : Nat × Packet} {rest : List (Nat × Packet)}
    (h : Refines cfg s d) (hnow : s.list.now ≤ now) (hline : d.line = (now, a) :: e :: rest) :
    e.1 = now + e.2.size * cfg.psPerByte := by
  have hdep : departures cfg.psPerByte 0 s.comp.accepted = d.left ++ (now, a) :: e :: rest := by
    rw [← h.entered, DueLine.entered, hline]
  obtain ⟨x, hx, he⟩ := departures_consecutive hdep
  have hold := (h.arrived x hx).trans hnow
  rw [he, Nat.max_eq_right hold]

/-! ### The time a service asks for -/

/-- The time asked for is the end of the service if the service time fits. -/
theorem beginService_eq {now : Nat} {pkt : Packet} (hnow : now < 2 ^ 64)
    (hle : now ≤ beginService cfg now pkt) (hfits : pkt.size * cfg.psPerByte < 2 ^ 64) :
    beginService cfg now pkt = now + pkt.size * cfg.psPerByte := by
  simp only [beginService, drainTime, EventList.relTime, Nat.mod_eq_of_lt hfits] at hle ⊢
  omega

/-- The time asked for is in the past only if the service ends after the last `uint64_t`. -/
theorem overflow_of_past {now : Nat} {pkt : Packet} (hpast : beginService cfg now pkt < now) :
    2 ^ 64 ≤ now + pkt.size * cfg.psPerByte := by
  simp only [beginService, drainTime, EventList.relTime] at hpast
  omega

/-- What the line says of the queue. -/
theorem serves_of_refines (h : Refines cfg s d) : Serves cfg s where
  -- what has left is the part of the schedule that is done, the rest is the line
  departed := by
    rw [← h.entered, ← h.left]
    exact d.left_eq_take
  enqueued := by rw [due_eq_line h, h.line]
  event := by rw [due_eq_line h, h.follows.own]
  size_eq := h.size_eq
  size_le := h.size_le
  arrives := fun pkt hnone => by
    simp only [Component.step, component, receivePacket] at hnone
    split_ifs at hnone with hwide hfull hempty
    · exact Or.inl hwide
    · cases hnone
    · right
      simp only [Option.bind_some, Option.map_eq_none_iff] at hnone
      exact overflow_of_past (EventList.registerSelf_eq_none hnone)
    · cases hnone
  dispatches := fun hnone => by
    rcases Component.step_dispatch_eq_none h.follows.ordered hnone with hpend | ⟨l, hnext, hself⟩
    · exact Or.inl hpend
    · -- the queue's event: its handler fails for the next packet only
      right
      obtain ⟨-, -, a, rest, hline⟩ := front_of_self h.follows hnext
      have hqueue : s.comp.enqueued = a :: rest.map Prod.snd := by
        rw [h.line, hline]
        rfl
      simp only [component, doNextEvent, hqueue, Option.some.injEq, forall_eq'] at hself
      cases rest with
      | nil => cases hself
      | cons e rest =>
        refine ⟨e, by rw [due_eq_line h, hline]; simp, ?_⟩
        rw [next_due h (now_le_of_line h hline) hline]
        exact overflow_of_past (EventList.registerSelf_eq_none hself)

/-! ### Steps -/

/-- What an arrival does. -/
theorem arrive_cases {pkt : Packet} (hstep : (component cfg).step s (.arrive pkt) = some t) :
    (cfg.maxsize < (s.comp.queuesize + pkt.size) % 2 ^ 64 ∧
      t = { s with comp := { s.comp with
        dropped := s.comp.dropped ++ [(s.list.now, pkt)] } }) ∨
    ((s.comp.queuesize + pkt.size) % 2 ^ 64 ≤ cfg.maxsize ∧
      ∃ l, s.list.registerSelf
          (if s.comp.enqueued = [] then [beginService cfg s.list.now pkt] else []) = some l ∧
        t = { list := l, comp := { s.comp with
          enqueued := s.comp.enqueued ++ [pkt]
          queuesize := (s.comp.queuesize + pkt.size) % 2 ^ 64
          accepted := s.comp.accepted ++ [(s.list.now, pkt)] } }) := by
  obtain ⟨r, hr, hlist⟩ := Option.bind_eq_some_iff.mp hstep
  obtain ⟨l, hl, rfl⟩ := Option.map_eq_some_iff.mp hlist
  simp only [component, receivePacket] at hr
  by_cases hwide : 2 ^ 64 ≤ pkt.size
  · rw [if_pos hwide] at hr
    cases hr
  rw [if_neg hwide] at hr
  -- the source compares the 64-bit sum, after it may have wrapped
  by_cases hfull : cfg.maxsize < (s.comp.queuesize + pkt.size) % 2 ^ 64
  · rw [if_pos hfull] at hr
    cases hr
    cases hl
    exact Or.inl ⟨hfull, rfl⟩
  · rw [if_neg hfull] at hr
    cases hr
    exact Or.inr ⟨Nat.le_of_not_lt hfull, l, hl, rfl⟩

/-- What the queue's own event does. -/
theorem dispatch_cases {others : List (Nat × UInt64)} {l : EventList Source} {pkt : Packet}
    {rest : List Packet} (hnext : s.list.next = .event .self l)
    (hqueue : s.comp.enqueued = pkt :: rest)
    (hstep : (component cfg).step s (.dispatch others) = some t) :
    ∃ l₂ l₃, l.registerOthers others = some l₂ ∧
      l₂.registerSelf (rest.head?.map (beginService cfg l.now)).toList = some l₃ ∧
      t.list = l₃ ∧ t.comp.enqueued = rest ∧
      t.comp.queuesize = (s.comp.queuesize + 2 ^ 64 - pkt.size) % 2 ^ 64 ∧
      t.comp.accepted = s.comp.accepted ∧ t.comp.departed = s.comp.departed ++ [(l.now, pkt)] := by
  simp only [Component.step, hnext, component, doNextEvent, hqueue, Option.bind_some] at hstep
  obtain ⟨l₂, hl₂, hlast⟩ := Option.bind_eq_some_iff.mp hstep
  obtain ⟨l₃, hl₃, rfl⟩ := Option.map_eq_some_iff.mp hlast
  exact ⟨l₂, l₃, hl₂, hl₃, rfl, rfl, rfl, rfl, rfl⟩

theorem refines_register {id : Nat} {time : UInt64} (h : Refines cfg s d)
    (hstep : (component cfg).step s (.register id time) = some t) : Refines cfg t d := by
  obtain ⟨l, hl, rfl⟩ := Option.map_eq_some_iff.mp hstep
  obtain ⟨hfollows, hnow⟩ := follows_register h.follows hl
  exact ⟨hfollows, h.left, h.entered, h.line, fun a ha => (h.arrived a ha).trans_eq hnow.symm,
    h.size_eq, h.size_le⟩

theorem bytes_append (q : FifoQueue) (pkt : Packet) :
    ((q.enqueued ++ [pkt]).map Packet.size).sum = q.bytes + pkt.size := by
  simp [bytes]

theorem refines_drop {pkt : Packet} (h : Refines cfg s d) :
    Refines cfg { s with comp := { s.comp with
      dropped := s.comp.dropped ++ [(s.list.now, pkt)] } } d :=
  ⟨h.follows, h.left, h.entered, h.line, h.arrived, h.size_eq, h.size_le⟩

/-- A packet that is accepted enters the line. -/
theorem refines_accept {pkt : Packet} {l : EventList Source} (h : Refines cfg s d)
    (hfull : (s.comp.queuesize + pkt.size) % 2 ^ 64 ≤ cfg.maxsize)
    (hsum : s.comp.queuesize + pkt.size < 2 ^ 64)
    (htime : s.comp.enqueued = [] → pkt.size * cfg.psPerByte < 2 ^ 64)
    (hl : s.list.registerSelf
      (if s.comp.enqueued = [] then [beginService cfg s.list.now pkt] else []) = some l) :
    ∃ d', Refines cfg { list := l, comp := { s.comp with
      enqueued := s.comp.enqueued ++ [pkt]
      queuesize := (s.comp.queuesize + pkt.size) % 2 ^ 64
      accepted := s.comp.accepted ++ [(s.list.now, pkt)] } } d' := by
  have hord := h.follows.ordered
  let due := max s.list.now (lastTime 0 (departures cfg.psPerByte 0 s.comp.accepted)) +
    pkt.size * cfg.psPerByte
  have hlast : ∀ e ∈ d.line, e.1 ≤ due := by
    intro e he
    have hmem : e ∈ d.entered := List.mem_append_right _ he
    have hle := le_lastTime (d := 0) h.follows.ok.sorted hmem
    rw [h.entered] at hle
    exact (hle.trans (Nat.le_max_right _ _)).trans (Nat.le_add_right _ _)
  have hnow : s.list.now ≤ due := (Nat.le_max_left _ _).trans (Nat.le_add_right _ _)
  -- the service of a packet that finds the queue empty begins now
  have hdue : d.line = [] → beginService cfg s.list.now pkt = due := by
    intro hline
    have hempty := (enqueued_eq_nil h).mpr hline
    rw [if_pos hempty] at hl
    rw [beginService_eq hord.now_lt (EventList.now_le_of_registerSelf hl) (htime hempty)]
    show _ = max _ _ + _
    rw [Nat.max_eq_left (lastTime_le h hline)]
  have hreg : s.list.registerSelf (if d.line = [] then [due] else []) = some l := by
    rw [← hl]
    by_cases hline : d.line = []
    · rw [if_pos hline, if_pos ((enqueued_eq_nil h).mpr hline), hdue hline]
    · rw [if_neg hline, if_neg (mt (enqueued_eq_nil h).mp hline)]
  have hlt : d.line = [] → due < 2 ^ 64 := by
    intro hline
    rw [← hdue hline]
    exact Nat.mod_lt _ (Nat.two_pow_pos 64)
  obtain ⟨hfollows, hnow'⟩ := follows_enter (a := pkt) h.follows hnow hlast hlt hreg
  refine ⟨_, hfollows, h.left, ?_, ?_, fun a ha => ?_, ?_, hfull⟩
  · rw [DueLine.entered_enter, h.entered, departures_append]
  · rw [h.line, DueLine.enter, List.map_append]
    rfl
  · show a.1 ≤ l.now
    rw [hnow']
    rcases List.mem_append.mp ha with hold | hnew
    · exact h.arrived a hold
    · rw [List.mem_singleton.mp hnew]
  · show (s.comp.queuesize + pkt.size) % 2 ^ 64 = _
    rw [Nat.mod_eq_of_lt hsum, h.size_eq]
    exact (bytes_append s.comp pkt).symm

theorem refines_other {id : Nat} {others : List (Nat × UInt64)} {l : EventList Source}
    (h : Refines cfg s d) (hnext : s.list.next = .event (.other id) l)
    (hstep : (component cfg).step s (.dispatch others) = some t) : ∃ d', Refines cfg t d' := by
  simp only [Component.step, hnext] at hstep
  obtain ⟨l', hl', rfl⟩ := Option.map_eq_some_iff.mp hstep
  obtain ⟨hfollows, hle⟩ := follows_other h.follows hnext hl'
  exact ⟨_, hfollows, h.left, h.entered, h.line, fun a ha => (h.arrived a ha).trans hle,
    h.size_eq, h.size_le⟩

/-- The packet served leaves the line. -/
theorem refines_self {others : List (Nat × UInt64)} {l : EventList Source} (h : Refines cfg s d)
    (hnext : s.list.next = .event .self l)
    (hfits : ∀ pkt ∈ s.comp.enqueued.tail.head?, pkt.size * cfg.psPerByte < 2 ^ 64)
    (hstep : (component cfg).step s (.dispatch others) = some t) : ∃ d', Refines cfg t d' := by
  obtain ⟨hord, -, a, rest, hline⟩ := front_of_self h.follows hnext
  have hqueue : s.comp.enqueued = a :: rest.map Prod.snd := by
    rw [h.line, hline]
    rfl
  obtain ⟨l₂, l₃, hl₂, hl₃, hlist, henq, hsize, hacc, hdep⟩ :=
    dispatch_cases hnext hqueue hstep
  obtain ⟨-, hnow₂, -⟩ := EventList.registerOthers_ordered hord hl₂
  have hle : s.list.now ≤ l.now := now_le_of_line h hline
  have hleave := DueLine.leave_of_line hline
  have hline' : d.leave.line = rest := by rw [hleave]
  rw [hqueue] at hfits
  -- the service of the next packet begins now
  have hnextdue : ∀ e ∈ rest.head?, beginService cfg l.now e.2 = e.1 := by
    intro e he
    cases rest with
    | nil => cases he
    | cons x rest =>
      cases he
      have hpast : l₂.now ≤ beginService cfg l.now e.2 := EventList.now_le_of_registerSelf hl₃
      rw [hnow₂] at hpast
      rw [next_due h hle hline, beginService_eq hord.now_lt hpast (hfits e.2 rfl)]
  have hreg : l₂.registerSelf (d.leave.line.head?.map Prod.fst).toList = some l₃ := by
    rw [hline', ← hl₃, List.head?_map]
    cases hhead : rest.head? with
    | none => rfl
    | some e => simp only [Option.map_some, Option.toList_some, hnextdue e hhead]
  have hlt : ∀ e ∈ d.leave.line.head?, e.1 < 2 ^ 64 := by
    intro e he
    rw [hline'] at he
    rw [← hnextdue e he]
    exact Nat.mod_lt _ (Nat.two_pow_pos 64)
  obtain ⟨hfollows, hnow⟩ := follows_leave h.follows hnext hl₂ hreg hlt
  have hbytes : s.comp.queuesize = a.size + t.comp.bytes := by
    rw [h.size_eq, bytes, hqueue, bytes, henq, List.map_cons, List.sum_cons]
  have hsize' : t.comp.queuesize = t.comp.bytes := by
    have hmax := h.size_le
    have hlt64 := cfg.maxsize_lt
    rw [hsize]
    omega
  refine ⟨d.leave, ⟨by rw [hlist]; exact hfollows, ?_, ?_, ?_, fun x hx => ?_, hsize', ?_⟩⟩
  · rw [hdep, ← h.left, hleave]
  · rw [DueLine.entered_leave, h.entered, hacc]
  · rw [henq, hline']
  · rw [hacc] at hx
    rw [hlist, hnow]
    exact (h.arrived x hx).trans hle
  · have hmax := h.size_le
    omega

/-! ## The law holds exactly while nothing wraps -/

/-- A step that fits keeps the line, and drops what it should. -/
theorem refines_step {a : Component.Act} (h : Refines cfg s d) (hfits : Fits cfg s a)
    (hstep : (component cfg).step s a = some t) : ∃ d', Refines cfg t d' := by
  cases a with
  | register id time => exact ⟨d, refines_register h hstep⟩
  | arrive pkt =>
    rcases arrive_cases hstep with ⟨-, rfl⟩ | ⟨hroom, l, hl, rfl⟩
    · exact ⟨d, refines_drop h⟩
    · obtain ⟨hsum, htime⟩ := hfits hroom
      exact refines_accept h hroom hsum htime hl
  | dispatch others =>
    cases hnext : s.list.next with
    | nothing =>
      simp only [Component.step, hnext] at hstep
      cases hstep
    | abort => exact absurd hnext (EventList.next_ne_abort h.follows.ordered)
    | event src l =>
      cases src with
      | self => exact refines_self h hnext (hfits l hnext) hstep
      | other id => exact refines_other h hnext hstep

end FifoQueue

end Htsim
end DatacenterNetworking
