/-
  DatacenterNetworking.Htsim.Component

  One component of the simulation (a queue, a pipe) and the event list it shares
  with all others.  The others may register events and bring packets whenever they
  like.  When the component sends a packet on, they may register events before it
  goes on itself; they do not bring a packet back to it at that moment.

  A step is `none` when an assertion fails.  The simulation has no end time.
-/

import DatacenterNetworking.Htsim.EventList
import DatacenterNetworking.Htsim.Queue
import DatacenterNetworking.Lib.DueLine

namespace DatacenterNetworking
namespace Htsim

/-- Whose event it is. -/
inductive Source where
  | self
  | other (id : Nat)
  deriving DecidableEq, Repr

/-- A component: what it does with a packet and with an event of its own at a given time, and
    the times at which it has itself called again.  `none` when an assertion fails. -/
structure Component (σ : Type) where
  receivePacket : Nat → Packet → σ → Option (σ × List Nat)
  doNextEvent : Nat → σ → Option (σ × List Nat)

/-- The event list and the component's variables. -/
structure Component.State (σ : Type) where
  list : EventList Source
  comp : σ

/-- What happens next: another source registers an event, a packet arrives, or the next event
    is dispatched, during which other sources register events. -/
inductive Component.Act where
  | register (id : Nat) (time : UInt64)
  | arrive (pkt : Packet)
  | dispatch (others : List (Nat × UInt64))

namespace EventList

/-- The times of the component's events. -/
def ownEvents (l : EventList Source) : List Nat :=
  (l.pendingsources.filter fun e => e.src = .self).map Pending.time

/-- Calls of `sourceIsPending` for the component itself. -/
def registerSelf (l : EventList Source) : List Nat → Option (EventList Source)
  | [] => some l
  | time :: rest => (l.sourceIsPending .self time).bind fun l' => l'.registerSelf rest

/-- Calls for others. -/
def registerOthers (l : EventList Source) : List (Nat × UInt64) → Option (EventList Source)
  | [] => some l
  | (id, time) :: rest =>
      (l.sourceIsPending (.other id) time.toNat).bind fun l' => l'.registerOthers rest

/-- `sourceIsPendingRel`: the time, a sum of `uint64_t`. -/
def relTime (now timefromnow : Nat) : Nat := (now + timefromnow) % 2 ^ 64

end EventList

namespace Component

variable {σ : Type}

def step (c : Component σ) (s : State σ) : Act → Option (State σ)
  | .register id time =>
      (s.list.sourceIsPending (.other id) time.toNat).map fun l => { s with list := l }
  | .arrive pkt =>
      (c.receivePacket s.list.now pkt s.comp).bind fun r =>
        (s.list.registerSelf r.2).map fun l => { list := l, comp := r.1 }
  | .dispatch others =>
      match s.list.next with
      | .event (.other _) l => (l.registerOthers others).map fun l' => { s with list := l' }
      | .event .self l =>
          (c.doNextEvent l.now s.comp).bind fun r =>
            (l.registerOthers others).bind fun l' =>
              (l'.registerSelf r.2).map fun l'' => { list := l'', comp := r.1 }
      | _ => none

/-- The component in the simulation. -/
def system (c : Component σ) : Lts (State σ) Act where
  step := c.step

end Component

/-! ## The event list between two steps -/

namespace EventList

variable {l l' : EventList Source}

/-- The events are in order, none is in the past, all times are of 64 bits, and there is no
    end time. -/
structure Ordered (l : EventList Source) : Prop where
  sorted : l.pendingsources.Pairwise fun a b => a.time ≤ b.time
  future : ∀ e ∈ l.pendingsources, l.now ≤ e.time
  bounded : ∀ e ∈ l.pendingsources, e.time < 2 ^ 64
  now_lt : l.now < 2 ^ 64
  endless : l.endtime = 0

theorem ordered_get : (get : EventList Source).Ordered where
  sorted := List.Pairwise.nil
  future := fun _ he => absurd he List.not_mem_nil
  bounded := fun _ he => absurd he List.not_mem_nil
  now_lt := Nat.two_pow_pos 64
  endless := rfl

/-- What a registration does. -/
theorem sourceIsPending_ordered {src : Source} {time : Nat} (h : l.Ordered)
    (htime : time < 2 ^ 64) (hreg : l.sourceIsPending src time = some l') :
    l.now ≤ time ∧ l'.now = l.now ∧ l'.Ordered ∧
      l'.pendingsources = insertByKey Pending.time ⟨time, src⟩ l.pendingsources := by
  obtain ⟨hnow, ⟨-, rfl⟩ | ⟨hbeyond, -⟩⟩ := Simulation.sourceIsPending_spec hreg
  · refine ⟨hnow, rfl, ⟨pairwise_insertByKey h.sorted, fun e he => ?_, fun e he => ?_, h.now_lt,
      h.endless⟩, rfl⟩
    · rcases mem_insertByKey.mp he with heq | hold
      · rw [heq]
        exact hnow
      · exact h.future e hold
    · rcases mem_insertByKey.mp he with heq | hold
      · rw [heq]
        exact htime
      · exact h.bounded e hold
  · exact absurd (Or.inl h.endless) hbeyond

/-- A registration fails only for the past. -/
theorem sourceIsPending_eq_none {src : Source} {time : Nat}
    (hreg : l.sourceIsPending src time = none) : time < l.now := by
  simp only [sourceIsPending] at hreg
  split_ifs at hreg with hnow
  omega

theorem registerOthers_ordered {others : List (Nat × UInt64)} (h : l.Ordered)
    (hreg : l.registerOthers others = some l') :
    l'.Ordered ∧ l'.now = l.now ∧ l'.ownEvents = l.ownEvents := by
  induction others generalizing l with
  | nil =>
    cases hreg
    exact ⟨h, rfl, rfl⟩
  | cons e rest ih =>
    obtain ⟨l₁, h₁, hrest⟩ := Option.bind_eq_some_iff.mp hreg
    obtain ⟨-, hnow₁, hord₁, hins⟩ := sourceIsPending_ordered h e.2.toNat_lt h₁
    obtain ⟨hord, hnow, hown⟩ := ih hord₁ hrest
    refine ⟨hord, hnow.trans hnow₁, hown.trans ?_⟩
    rw [ownEvents, hins, filter_insertByKey_of_not (by simp)]
    rfl

/-- The assertion of a registration. -/
theorem now_le_of_registerSelf {time : Nat} (hreg : l.registerSelf [time] = some l') :
    l.now ≤ time := by
  obtain ⟨l₁, h₁, -⟩ := Option.bind_eq_some_iff.mp hreg
  exact (Simulation.sourceIsPending_spec h₁).1

/-- The component is called at one time when it was not to be called at all. -/
theorem registerSelf_one {time : Nat} (h : l.Ordered) (hnone : l.ownEvents = [])
    (htime : time < 2 ^ 64) (hreg : l.registerSelf [time] = some l') :
    l.now ≤ time ∧ l'.Ordered ∧ l'.now = l.now ∧ l'.ownEvents = [time] := by
  obtain ⟨l₁, h₁, hrest⟩ := Option.bind_eq_some_iff.mp hreg
  cases hrest
  obtain ⟨hle, hnow, hord, hins⟩ := sourceIsPending_ordered h htime h₁
  have hnone' : l.pendingsources.filter (fun e => e.src = .self) = [] :=
    List.map_eq_nil_iff.mp hnone
  refine ⟨hle, hord, hnow, ?_⟩
  rw [ownEvents, hins, filter_insertByKey_of_le (by simp) h.sorted fun y hy hself => ?_, hnone']
  · rfl
  · have hmem : y ∈ l.pendingsources.filter fun e => e.src = .self :=
      List.mem_filter.mpr ⟨hy, hself⟩
    rw [hnone'] at hmem
    cases hmem

theorem registerSelf_eq_none {time : Nat} (hreg : l.registerSelf [time] = none) :
    time < l.now := by
  refine sourceIsPending_eq_none (?_ : l.sourceIsPending .self time = none)
  cases h : l.sourceIsPending .self time with
  | none => rfl
  | some l₁ =>
    simp only [registerSelf, h, Option.bind_some] at hreg
    cases hreg

/-- The assertion of `doNextEvent` holds. -/
theorem next_ne_abort (h : l.Ordered) : l.next ≠ .abort := by
  simp only [next]
  split
  · intro habort
    cases habort
  · rename_i e rest hpend
    have hle : l.lasteventtime ≤ e.time := h.future e (by rw [hpend]; exact List.mem_cons_self)
    rw [if_pos hle]
    intro habort
    cases habort

/-- There is nothing to do when the list is empty. -/
theorem pending_of_next_nothing (h : l.next = .nothing) : l.pendingsources = [] := by
  simp only [next] at h
  split at h
  · rename_i hpend
    exact hpend
  · split_ifs at h

/-- The next event is one of another source, which comes before the component's own, or the
    first of these. -/
theorem next_cases {src : Source} (h : l.Ordered) (hnext : l.next = .event src l') :
    l'.Ordered ∧ l.now ≤ l'.now ∧
      ((∃ id, src = .other id ∧ l'.ownEvents = l.ownEvents ∧
          ∀ t ∈ l.ownEvents.head?, l'.now ≤ t) ∨
        (src = .self ∧ l.ownEvents = l'.now :: l'.ownEvents)) := by
  simp only [next] at hnext
  split at hnext
  · cases hnext
  · rename_i e rest hpend
    split_ifs at hnext with hle
    cases hnext
    have hsorted := h.sorted
    rw [hpend] at hsorted
    obtain ⟨hfirst, hrest⟩ := List.pairwise_cons.mp hsorted
    have hbounded := h.bounded
    rw [hpend] at hbounded
    obtain ⟨htime, hlater⟩ := List.forall_mem_cons.mp hbounded
    refine ⟨⟨hrest, hfirst, hlater, htime, h.endless⟩, hle, ?_⟩
    cases hsrc : e.src with
    | self =>
      refine Or.inr ⟨rfl, ?_⟩
      rw [ownEvents, hpend, List.filter_cons_of_pos (by simpa using hsrc)]
      rfl
    | other id =>
      refine Or.inl ⟨id, rfl, ?_, fun t ht => ?_⟩
      · rw [ownEvents, ownEvents, hpend, List.filter_cons_of_neg (by simp [hsrc])]
      · obtain ⟨x, hx, rfl⟩ := List.mem_map.mp (List.mem_of_mem_head? ht)
        have hmem := (List.mem_filter.mp hx).1
        rw [hpend] at hmem
        rcases List.mem_cons.mp hmem with heq | hlater
        · rw [heq]
          rfl
        · exact hfirst x hlater

end EventList

/-- A dispatch fails only if there is nothing to do, or in the component itself. -/
theorem Component.step_dispatch_eq_none {σ : Type} {c : Component σ} {s : Component.State σ}
    (hord : s.list.Ordered) (hnone : c.step s (.dispatch []) = none) :
    s.list.pendingsources = [] ∨ ∃ l, s.list.next = .event .self l ∧
      ∀ r, c.doNextEvent l.now s.comp = some r → l.registerSelf r.2 = none := by
  cases hnext : s.list.next with
  | nothing => exact Or.inl (EventList.pending_of_next_nothing hnext)
  | abort => exact absurd hnext (EventList.next_ne_abort hord)
  | event src l =>
    cases src with
    | self =>
      right
      refine ⟨l, rfl, fun r hr => ?_⟩
      simp only [Component.step, hnext, hr, Option.bind_some, EventList.registerOthers,
        Option.map_eq_none_iff] at hnone
      exact hnone
    | other id =>
      simp only [Component.step, hnext, EventList.registerOthers] at hnone
      cases hnone

/-! ## A component with a line

The component has one event in the list, at the time of the front of its line, or none when
the line is empty. -/

/-- The event list of a component with the line `d`. -/
structure Follows {α : Type} (l : EventList Source) (d : DueLine α) : Prop where
  ok : d.Ok
  ordered : l.Ordered
  now : d.now = l.now
  own : l.ownEvents = (d.line.head?.map Prod.fst).toList

section Line

variable {α : Type} {l l₁ l₂ l₃ : EventList Source} {d : DueLine α}

theorem follows_get : Follows (EventList.get : EventList Source) (DueLine.empty : DueLine α) where
  ok := DueLine.Ok.empty
  ordered := EventList.ordered_get
  now := rfl
  own := rfl

/-- Another source registers an event. -/
theorem follows_register {id : Nat} {time : UInt64} (h : Follows l d)
    (hreg : l.sourceIsPending (.other id) time.toNat = some l₁) :
    Follows l₁ d ∧ l₁.now = l.now := by
  have hone : l.registerOthers [(id, time)] = some l₁ := by
    simp only [EventList.registerOthers, hreg, Option.bind_some]
  obtain ⟨hord, hnow, hown⟩ := EventList.registerOthers_ordered h.ordered hone
  exact ⟨⟨h.ok, hord, h.now.trans hnow.symm, hown.trans h.own⟩, hnow⟩

/-- An event of another source is dispatched. -/
theorem follows_other {id : Nat} {others : List (Nat × UInt64)} (h : Follows l d)
    (hnext : l.next = .event (.other id) l₁) (hreg : l₁.registerOthers others = some l₂) :
    Follows l₂ (d.wait l₂.now) ∧ l.now ≤ l₂.now := by
  obtain ⟨hord₁, hle, hcases⟩ := EventList.next_cases h.ordered hnext
  obtain ⟨hord₂, hnow₂, hown₂⟩ := EventList.registerOthers_ordered hord₁ hreg
  rcases hcases with ⟨_, -, hown₁, hfirst⟩ | ⟨hself, -⟩
  · refine ⟨⟨h.ok.wait (by rw [h.now, hnow₂]; exact hle) fun e he => ?_, hord₂, rfl,
      hown₂.trans (hown₁.trans h.own)⟩, hle.trans_eq hnow₂.symm⟩
    rw [hnow₂]
    apply hfirst
    rw [h.own, Option.mem_def.mp he]
    rfl
  · cases hself

/-- Something enters: the component asks for an event if the line was empty. -/
theorem follows_enter {due : Nat} {a : α} (h : Follows l d) (hnow : l.now ≤ due)
    (hlast : ∀ e ∈ d.line, e.1 ≤ due) (hdue : d.line = [] → due < 2 ^ 64)
    (hreg : l.registerSelf (if d.line = [] then [due] else []) = some l₁) :
    Follows l₁ (d.enter due a) ∧ l₁.now = l.now := by
  have hok := h.ok.enter (h.now.trans_le hnow) hlast a
  cases hline : d.line with
  | nil =>
    rw [if_pos hline] at hreg
    have hnone : l.ownEvents = [] := by
      rw [h.own, hline]
      rfl
    obtain ⟨-, hord, hnow₁, hown⟩ :=
      EventList.registerSelf_one h.ordered hnone (hdue hline) hreg
    refine ⟨⟨hok, hord, h.now.trans hnow₁.symm, ?_⟩, hnow₁⟩
    rw [hown]
    simp [DueLine.enter, hline]
  | cons e rest =>
    rw [if_neg (by rw [hline]; exact List.cons_ne_nil e rest)] at hreg
    cases hreg
    refine ⟨⟨hok, h.ordered, h.now, ?_⟩, rfl⟩
    rw [h.own]
    simp [DueLine.enter, hline]

/-- The component's event comes at the time of the front, and there is no other. -/
theorem front_of_self (h : Follows l d) (hnext : l.next = .event .self l₁) :
    l₁.Ordered ∧ l₁.ownEvents = [] ∧ ∃ a rest, d.line = (l₁.now, a) :: rest := by
  obtain ⟨hord₁, -, hcases⟩ := EventList.next_cases h.ordered hnext
  rcases hcases with ⟨_, hother, -⟩ | ⟨-, hown⟩
  · cases hother
  · rw [h.own] at hown
    cases hline : d.line with
    | nil =>
      rw [hline] at hown
      cases hown
    | cons e rest =>
      rw [hline] at hown
      obtain ⟨hfront, hnone⟩ := List.cons.inj hown
      exact ⟨hord₁, hnone.symm, e.2, rest, by rw [← hfront]⟩

/-- The component's event is dispatched, and it asks for the next one, if any, at the time of
    the next. -/
theorem follows_leave {others : List (Nat × UInt64)} (h : Follows l d)
    (hnext : l.next = .event .self l₁) (hothers : l₁.registerOthers others = some l₂)
    (hreg : l₂.registerSelf (d.leave.line.head?.map Prod.fst).toList = some l₃)
    (hdue : ∀ e ∈ d.leave.line.head?, e.1 < 2 ^ 64) :
    Follows l₃ d.leave ∧ l₃.now = l₁.now := by
  obtain ⟨hord₁, hnone, a, rest, hline⟩ := front_of_self h hnext
  obtain ⟨hord₂, hnow₂, hown₂⟩ := EventList.registerOthers_ordered hord₁ hothers
  have hleave := DueLine.leave_of_line hline
  have hnow : d.leave.now = l₁.now := by rw [hleave]
  have hline' : d.leave.line = rest := by rw [hleave]
  rw [hline'] at hreg hdue
  cases rest with
  | nil =>
    cases hreg
    refine ⟨⟨h.ok.leave, hord₂, hnow.trans hnow₂.symm, ?_⟩, hnow₂⟩
    rw [hown₂, hnone, hline']
    rfl
  | cons x rest =>
    obtain ⟨-, hord₃, hnow₃, hown₃⟩ :=
      EventList.registerSelf_one hord₂ (hown₂.trans hnone) (hdue x rfl) hreg
    refine ⟨⟨h.ok.leave, hord₃, hnow.trans (hnow₃.trans hnow₂).symm, ?_⟩, hnow₃.trans hnow₂⟩
    rw [hown₃, hline']
    rfl

end Line

end Htsim
end DatacenterNetworking
