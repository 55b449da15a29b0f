/-
  DatacenterNetworking.Htsim.Pipe

  A pipe delays what it gets (`pipe.cpp`).  Only a packet that finds it empty has
  the pipe called; a packet that leaves has it called for the next.

  `pipe_delays`: this is enough for every packet to leave in order and exactly the
  delay after its arrival.  The sum of the two is one of `uint64_t`: where it wraps,
  the pipe asks for an event in the past, and the event list's assertion fails.
-/

import DatacenterNetworking.Htsim.Component

namespace DatacenterNetworking
namespace Htsim

/-- `Pipe`, with the packets in flight oldest first.  `arrived` and `departed` are histories
    of the packets and the times. -/
structure Pipe where
  inflight : List (Nat × Packet)
  arrived : List (Nat × Packet)
  departed : List (Nat × Packet)
  deriving DecidableEq, Repr

namespace Pipe

/-- An empty pipe. -/
def new : Pipe where
  inflight := []
  arrived := []
  departed := []

/-- `Pipe::receivePacket`. -/
def receivePacket (delay : UInt64) (now : Nat) (pkt : Packet) (p : Pipe) :
    Option (Pipe × List Nat) :=
  let due := EventList.relTime now delay.toNat
  some ({ p with inflight := p.inflight ++ [(due, pkt)], arrived := p.arrived ++ [(now, pkt)] },
    if p.inflight = [] then [due] else [])

/-- `Pipe::doNextEvent`. -/
def doNextEvent (now : Nat) (p : Pipe) : Option (Pipe × List Nat) :=
  match p.inflight with
  | [] => some (p, [])
  | (_, pkt) :: rest =>
      some ({ p with inflight := rest, departed := p.departed ++ [(now, pkt)] },
        (rest.head?.map Prod.fst).toList)

/-- A pipe of the simulation. -/
def component (delay : UInt64) : Component Pipe where
  receivePacket := receivePacket delay
  doNextEvent := doNextEvent

/-- Before the first event. -/
def start : Component.State Pipe where
  list := EventList.get
  comp := new

/-- The packets that have not left yet, with their times. -/
def due (delay : UInt64) (p : Pipe) : List (Nat × Packet) :=
  (p.arrived.drop p.departed.length).map fun a => (a.1 + delay.toNat, a.2)

/-- Every packet leaves once, in order, the delay after its arrival; the others are in the
    pipe; and the event list holds one event for the pipe, at the time the first of these is
    due, or none.  No assertion fails unless a packet is due after the last `uint64_t`. -/
structure Delays (delay : UInt64) (s : Component.State Pipe) : Prop where
  departed : s.comp.departed =
    (s.comp.arrived.take s.comp.departed.length).map fun a => (a.1 + delay.toNat, a.2)
  inflight : s.comp.inflight.map Prod.snd = (s.comp.due delay).map Prod.snd
  event : s.list.ownEvents = ((s.comp.due delay).head?.map Prod.fst).toList
  arrives : ∀ pkt, (component delay).step s (.arrive pkt) = none →
    2 ^ 64 ≤ s.list.now + delay.toNat
  dispatches : (component delay).step s (.dispatch []) = none →
    s.list.pendingsources = [] ∨ ∃ e ∈ s.comp.due delay, 2 ^ 64 ≤ e.1

/-- The pipe refines a line, in which the times do not wrap. -/
structure Refines (delay : UInt64) (s : Component.State Pipe) (d : DueLine Packet) : Prop where
  follows : Follows s.list d
  left : d.left = s.comp.departed
  entered : d.entered = s.comp.arrived.map fun a => (a.1 + delay.toNat, a.2)
  inflight : s.comp.inflight = d.line.map fun e => (e.1 % 2 ^ 64, e.2)
  due : ∀ e ∈ d.line, delay.toNat ≤ e.1 ∧ e.1 ≤ s.list.now + delay.toNat

theorem refines_start (delay : UInt64) : Refines delay start DueLine.empty where
  follows := follows_get
  left := rfl
  entered := rfl
  inflight := rfl
  due := fun _ he => absurd he List.not_mem_nil

variable {delay : UInt64} {s t : Component.State Pipe} {d : DueLine Packet}

/-- A time that wraps is in the past. -/
theorem lt_of_le_mod (delay : UInt64) {now due : Nat} (hnow : now < 2 ^ 64)
    (hdue : due ≤ now + delay.toNat) (hle : now ≤ due % 2 ^ 64) : due < 2 ^ 64 := by
  have hdelay := delay.toNat_lt
  omega

theorem refines_arrive {pkt : Packet} (h : Refines delay s d)
    (hstep : (component delay).step s (.arrive pkt) = some t) :
    Refines delay t (d.enter (s.list.now + delay.toNat) pkt) := by
  simp only [Component.step, component, receivePacket, Option.bind_some] at hstep
  obtain ⟨l, hl, rfl⟩ := Option.map_eq_some_iff.mp hstep
  have hempty : s.comp.inflight = [] ↔ d.line = [] := by
    rw [h.inflight, List.map_eq_nil_iff]
  simp only [hempty] at hl
  -- the first event of an empty pipe is not in the past, so its time has not wrapped
  have hfits : d.line = [] →
      EventList.relTime s.list.now delay.toNat = s.list.now + delay.toNat := by
    intro hline
    rw [if_pos hline] at hl
    exact Nat.mod_eq_of_lt
      (lt_of_le_mod delay h.follows.ordered.now_lt le_rfl (EventList.now_le_of_registerSelf hl))
  have hreg : s.list.registerSelf (if d.line = [] then [s.list.now + delay.toNat] else []) =
      some l := by
    by_cases hline : d.line = []
    · rw [if_pos hline, ← hfits hline]
      rw [if_pos hline] at hl
      exact hl
    · rw [if_neg hline] at hl ⊢
      exact hl
  have hlt : d.line = [] → s.list.now + delay.toNat < 2 ^ 64 := by
    intro hline
    rw [← hfits hline]
    exact Nat.mod_lt _ (Nat.two_pow_pos 64)
  obtain ⟨hfollows, hnow⟩ := follows_enter (a := pkt) h.follows (Nat.le_add_right _ _)
    (fun e he => (h.due e he).2) hlt hreg
  refine ⟨hfollows, h.left, ?_, ?_, fun e he => ?_⟩
  · rw [DueLine.entered_enter, h.entered, List.map_append]
    rfl
  · show s.comp.inflight ++ _ = _
    rw [h.inflight, DueLine.enter, List.map_append]
    rfl
  · show _ ∧ e.1 ≤ l.now + delay.toNat
    rw [hnow]
    rcases List.mem_append.mp he with hold | hnew
    · exact h.due e hold
    · rw [List.mem_singleton.mp hnew]
      exact ⟨Nat.le_add_left _ _, le_rfl⟩

theorem refines_register {id : Nat} {time : UInt64} (h : Refines delay s d)
    (hstep : (component delay).step s (.register id time) = some t) : Refines delay t d := by
  obtain ⟨l, hl, rfl⟩ := Option.map_eq_some_iff.mp hstep
  obtain ⟨hfollows, hnow⟩ := follows_register h.follows hl
  exact ⟨hfollows, h.left, h.entered, h.inflight, fun e he => by
    show _ ∧ e.1 ≤ l.now + _
    rw [hnow]
    exact h.due e he⟩

theorem refines_dispatch {others : List (Nat × UInt64)} (h : Refines delay s d)
    (hstep : (component delay).step s (.dispatch others) = some t) :
    ∃ d', Refines delay t d' := by
  simp only [Component.step] at hstep
  split at hstep
  · rename_i id l hnext
    obtain ⟨l', hl', rfl⟩ := Option.map_eq_some_iff.mp hstep
    obtain ⟨hfollows, hle⟩ := follows_other h.follows hnext hl'
    refine ⟨_, hfollows, h.left, h.entered, h.inflight, fun e he => ?_⟩
    have hdue := h.due e he
    exact ⟨hdue.1, hdue.2.trans (Nat.add_le_add_right hle _)⟩
  · -- the pipe's own event
    rename_i l hnext
    obtain ⟨r, hr, hrest⟩ := Option.bind_eq_some_iff.mp hstep
    obtain ⟨l₂, hl₂, hlast⟩ := Option.bind_eq_some_iff.mp hrest
    obtain ⟨l₃, hl₃, rfl⟩ := Option.map_eq_some_iff.mp hlast
    obtain ⟨hord, -, a, rest, hline⟩ := front_of_self h.follows hnext
    obtain ⟨-, hnow₂, -⟩ := EventList.registerOthers_ordered hord hl₂
    have hinflight := h.inflight
    rw [hline, List.map_cons] at hinflight
    simp only [component, doNextEvent, hinflight] at hr
    cases hr
    have hleave := DueLine.leave_of_line hline
    have hline' : d.leave.line = rest := by rw [hleave]
    have hdue : ∀ e ∈ rest, delay.toNat ≤ e.1 ∧ e.1 ≤ s.list.now + delay.toNat := fun e he =>
      h.due e (by rw [hline]; exact List.mem_cons_of_mem _ he)
    have hle : s.list.now ≤ l.now := by
      have hfuture := h.follows.ok.future _ (by rw [hline]; exact List.mem_cons_self)
      rw [h.follows.now] at hfuture
      exact hfuture
    -- the next packet's time has not wrapped either
    have hfits : ∀ e ∈ rest.head?, e.1 < 2 ^ 64 := by
      intro e he
      rw [List.head?_map, Option.mem_def.mp he] at hl₃
      have hpast := EventList.now_le_of_registerSelf hl₃
      have hlate := hdue e (List.mem_of_mem_head? he)
      have hnow := hord.now_lt
      refine lt_of_le_mod delay hnow (by omega) ?_
      rw [← hnow₂]
      exact hpast
    have hreg : l₂.registerSelf (d.leave.line.head?.map Prod.fst).toList = some l₃ := by
      rw [hline', ← hl₃, List.head?_map]
      cases hhead : rest.head? with
      | none => rfl
      | some e =>
        have hfit := hfits e hhead
        simp only [Option.map_some, Option.toList_some, Nat.mod_eq_of_lt hfit]
    obtain ⟨hfollows, hnow⟩ := follows_leave h.follows hnext hl₂ hreg (hline' ▸ hfits)
    refine ⟨_, hfollows, ?_, ?_, ?_, fun e he => ?_⟩
    · rw [hleave, ← h.left]
    · rw [DueLine.entered_leave, h.entered]
    · rw [hline']
    · rw [hline'] at he
      show _ ∧ e.1 ≤ l₃.now + delay.toNat
      rw [hnow]
      exact ⟨(hdue e he).1, (hdue e he).2.trans (Nat.add_le_add_right hle _)⟩
  · cases hstep

theorem refines_step {a : Component.Act} (h : Refines delay s d)
    (hstep : (component delay).step s a = some t) : ∃ d', Refines delay t d' := by
  cases a with
  | register id time => exact ⟨d, refines_register h hstep⟩
  | arrive pkt => exact ⟨_, refines_arrive h hstep⟩
  | dispatch others => exact refines_dispatch h hstep

/-! ## What the line says of the pipe -/

theorem due_eq_line (h : Refines delay s d) : s.comp.due delay = d.line := by
  rw [due, List.map_drop, ← h.entered, ← h.left, ← d.line_eq_drop]

theorem delays_of_refines (h : Refines delay s d) : Delays delay s where
  departed := by
    rw [List.map_take, ← h.entered, ← h.left]
    exact d.left_eq_take
  inflight := by
    rw [due_eq_line h, h.inflight, List.map_map]
    rfl
  event := by rw [due_eq_line h, h.follows.own]
  arrives := fun pkt hnone => by
    simp only [Component.step, component, receivePacket, Option.bind_some, Option.map_eq_none_iff]
      at hnone
    split_ifs at hnone
    · have hpast := EventList.registerSelf_eq_none hnone
      simp only [EventList.relTime] at hpast
      omega
    · cases hnone
  -- an event fails if there is none, or if its handler asks for a time that has passed
  dispatches := fun hnone => by
    rcases Component.step_dispatch_eq_none h.follows.ordered hnone with hpend | ⟨l, hnext, hself⟩
    · exact Or.inl hpend
    · -- the pipe's event: its handler fails for the next packet only
      right
      obtain ⟨-, -, a, rest, hline⟩ := front_of_self h.follows hnext
      have hinflight := h.inflight
      rw [hline, List.map_cons] at hinflight
      simp only [component, doNextEvent, hinflight, Option.some.injEq, forall_eq'] at hself
      cases rest with
      | nil => cases hself
      | cons e rest =>
        refine ⟨e, by rw [due_eq_line h, hline]; simp, ?_⟩
        have hpast : e.1 % 2 ^ 64 < l.now := EventList.registerSelf_eq_none hself
        obtain ⟨-, hsorted, -⟩ := List.pairwise_append.mp h.follows.ok.sorted
        rw [hline] at hsorted
        have hle : l.now ≤ e.1 := (List.pairwise_cons.mp hsorted).1 e List.mem_cons_self
        omega

/-- For every delay, and whatever packets arrive when. -/
theorem pipe_delays (delay : UInt64) (as : List Component.Act) :
    (component delay).system.Always (Delays delay) start as :=
  Lts.always_of_along (I := fun s => ∃ d, Refines delay s d) (G := fun _ _ => True)
    (fun _ _ _ ⟨_, h⟩ _ hstep => refines_step h hstep) (fun _ ⟨_, h⟩ => delays_of_refines h)
    ⟨_, refines_start delay⟩ (Lts.along_of_step (fun _ _ _ _ => trivial) as)

end Pipe

end Htsim
end DatacenterNetworking
