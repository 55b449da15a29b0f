/-
  DatacenterNetworking.Htsim.EventList

  The event list (`eventlist.cpp`), and the loop of `main` that drains it.  The
  list is a `std::multimap` by time: an event goes behind those of its own time.

  What the handlers of the event sources compute is not part of it.  A handler is
  any function of the source, the time and the rest of the simulation, and what
  the list sees of it are the events it registers, in order.

  `dispatched_in_order`: as long as nothing is registered in the past, the list
  never fails its assertions, and it dispatches what was registered up to the end
  time once each, by time and then by order of registration.
-/

import DatacenterNetworking.Lib.Lts
import DatacenterNetworking.Lib.StableInsert

namespace DatacenterNetworking
namespace Htsim

/-- A source that is to have an event at `time`. -/
structure Pending (Source : Type) where
  time : Nat
  src : Source
  deriving DecidableEq, Repr

/-- `EventList`; the debugging statistics are left out. -/
structure EventList (Source : Type) where
  pendingsources : List (Pending Source)
  endtime : Nat
  lasteventtime : Nat
  nEventsProcessed : Nat
  deriving DecidableEq, Repr

namespace EventList

variable {Source : Type}

/-- `EventList::Get`, the first time. -/
def get : EventList Source where
  pendingsources := []
  endtime := 0
  lasteventtime := 0
  nEventsProcessed := 0

/-- `EventList::setEndtime`. -/
def setEndtime (l : EventList Source) (endtime : Nat) : EventList Source :=
  { l with endtime := endtime }

/-- `EventList::now`. -/
def now (l : EventList Source) : Nat := l.lasteventtime

/-- Events at `time` are not beyond the end of the simulation. -/
def Accepts (l : EventList Source) (time : Nat) : Prop := l.endtime = 0 ∨ time ≤ l.endtime

instance (l : EventList Source) (time : Nat) : Decidable (l.Accepts time) :=
  inferInstanceAs (Decidable (_ ∨ _))

/-- `EventList::sourceIsPending`; `none` when its assertion fails. -/
def sourceIsPending (l : EventList Source) (src : Source) (time : Nat) :
    Option (EventList Source) :=
  if l.now ≤ time then
    if l.Accepts time then
      some { l with pendingsources := insertByKey Pending.time ⟨time, src⟩ l.pendingsources }
    else some l
  else none

/-- What `EventList::doNextEvent` does before it calls the handler: there is nothing to do,
    its assertion fails, or the source is to handle its event. -/
inductive Next (Source : Type) where
  | nothing
  | abort
  | event (src : Source) (l : EventList Source)

def next (l : EventList Source) : Next Source :=
  match l.pendingsources with
  | [] => .nothing
  | e :: rest =>
      if l.lasteventtime ≤ e.time then
        .event e.src { l with pendingsources := rest, lasteventtime := e.time }
      else .abort

end EventList

/-- A call of `sourceIsPending` or `sourceIsPendingRel`. -/
inductive Registration (Source : Type) where
  | at (src : Source) (time : Nat)
  | rel (src : Source) (timefromnow : Nat)

/-- The event registered; the sum is one of `uint64_t`. -/
def Registration.pending {Source : Type} (now : Nat) : Registration Source → Pending Source
  | .at src time => ⟨time, src⟩
  | .rel src timefromnow => ⟨(now + timefromnow) % 2 ^ 64, src⟩

/-- A simulation: the event list and everything else, `world`.  `registered` and
    `dispatched` are the histories of both. -/
structure Simulation (Source World : Type) where
  list : EventList Source
  world : World
  registered : List (Pending Source)
  dispatched : List (Pending Source)

namespace Simulation

variable {Source World : Type}
  (handler : Source → Nat → World → World × List (Registration Source))

/-- A handler registers one event. -/
def register (s : Simulation Source World) (r : Registration Source) :
    Option (Simulation Source World) :=
  let e := r.pending s.list.now
  (s.list.sourceIsPending e.src e.time).map fun l =>
    { s with list := l, registered := s.registered ++ [e] }

/-- A handler registers several events. -/
def registerAll (s : Simulation Source World) :
    List (Registration Source) → Option (Simulation Source World)
  | [] => some s
  | r :: rs => (s.register r).bind fun s' => s'.registerAll rs

/-- The end time is set, if at all, and the first events are registered. -/
def setup (endtime : Nat) (world : World) (rs : List (Registration Source)) :
    Option (Simulation Source World) :=
  registerAll
    { list := EventList.get.setEndtime endtime, world := world, registered := [], dispatched := [] }
    rs

/-- How a call of `doNextEvent` ends: it returns `false`, an assertion fails, or it returns
    `true`. -/
inductive Result (Source World : Type) where
  | returnsFalse
  | aborts
  | returnsTrue (s : Simulation Source World)

/-- `EventList::doNextEvent`. -/
def doNextEvent (s : Simulation Source World) : Result Source World :=
  match s.list.next with
  | .nothing => .returnsFalse
  | .abort => .aborts
  | .event src l =>
      let r := handler src l.now s.world
      let s' : Simulation Source World :=
        { s with list := l, world := r.1, dispatched := s.dispatched ++ [⟨l.now, src⟩] }
      match s'.registerAll r.2 with
      | none => .aborts
      | some s'' =>
          .returnsTrue
            { s'' with list := { s''.list with nEventsProcessed := s''.list.nEventsProcessed + 1 } }

/-- `while (eventlist.doNextEvent()) {}` -/
def loop : Lts (Simulation Source World) Unit where
  step := fun s _ =>
    match s.doNextEvent handler with
    | .returnsTrue s' => some s'
    | _ => none

/-- The handler of the next event registers nothing in the past. -/
def Ahead (s : Simulation Source World) : Prop :=
  ∀ src l, s.list.next = .event src l →
    ∀ r ∈ (handler src l.now s.world).2, l.now ≤ (r.pending l.now).time

/-- What was registered within the end time. -/
def accepted (s : Simulation Source World) : List (Pending Source) :=
  s.registered.filter fun e => s.list.Accepts e.time

/-! ## Registering -/

variable {handler} {s s' : Simulation Source World}

theorem sourceIsPending_spec {l l' : EventList Source} {src : Source} {time : Nat}
    (h : l.sourceIsPending src time = some l') :
    l.now ≤ time ∧
      ((l.Accepts time ∧
          l' = { l with pendingsources := insertByKey Pending.time ⟨time, src⟩ l.pendingsources }) ∨
        (¬ l.Accepts time ∧ l' = l)) := by
  simp only [EventList.sourceIsPending] at h
  split_ifs at h with hnow hacc
  · cases h
    exact ⟨hnow, Or.inl ⟨hacc, rfl⟩⟩
  · cases h
    exact ⟨hnow, Or.inr ⟨hacc, rfl⟩⟩

/-- What holds of the event list and its history between any two calls. -/
structure Inv (s : Simulation Source World) : Prop where
  /-- What was dispatched, and then what is pending, is in order of time. -/
  sorted : (s.dispatched ++ s.list.pendingsources).Pairwise fun a b => a.time ≤ b.time
  past : ∀ e ∈ s.dispatched, e.time ≤ s.list.now
  future : ∀ e ∈ s.list.pendingsources, s.list.now ≤ e.time
  /-- They are the events accepted, -/
  perm : (s.dispatched ++ s.list.pendingsources).Perm s.accepted
  /-- and those of one time are in order of registration. -/
  stable : ∀ t, (s.dispatched ++ s.list.pendingsources).filter (fun e => e.time = t) =
    s.accepted.filter fun e => e.time = t

/-- A new event that is accepted goes behind everything dispatched, and everything of its
    own time. -/
theorem inv_insert {e : Pending Source} (h : Inv s) (hnow : s.list.now ≤ e.time)
    (hacc : s.list.Accepts e.time) :
    Inv
      { s with
        list := { s.list with
          pendingsources := insertByKey Pending.time e s.list.pendingsources }
        registered := s.registered ++ [e] } := by
  -- the new event is not before `now`, so it goes behind all that was dispatched
  obtain ⟨hdisp, hpend, hcross⟩ := List.pairwise_append.mp h.sorted
  have haccepted : (s.registered ++ [e]).filter (fun e => s.list.Accepts e.time) =
      s.accepted ++ [e] := by
    rw [List.filter_append, List.filter_cons_of_pos (by simpa using hacc), List.filter_nil]
    rfl
  refine
    { sorted := ?_
      past := h.past
      future := fun x hx => ?_
      perm := ?_
      stable := fun t => ?_ }
  · refine List.pairwise_append.mpr ⟨hdisp, pairwise_insertByKey hpend, fun x hx y hy => ?_⟩
    rcases mem_insertByKey.mp hy with rfl | hy
    · exact (h.past x hx).trans hnow
    · exact hcross x hx y hy
  · rcases mem_insertByKey.mp hx with rfl | hx
    · exact hnow
    · exact h.future x hx
  · show (s.dispatched ++ insertByKey Pending.time e s.list.pendingsources).Perm
      ((s.registered ++ [e]).filter fun e => s.list.Accepts e.time)
    rw [haccepted]
    calc (s.dispatched ++ insertByKey Pending.time e s.list.pendingsources).Perm
          (s.dispatched ++ e :: s.list.pendingsources) :=
          (perm_insertByKey e _).append_left _
      _ |>.Perm (e :: (s.dispatched ++ s.list.pendingsources)) := List.perm_middle
      _ |>.Perm (e :: s.accepted) := h.perm.cons e
      _ |>.Perm (s.accepted ++ [e]) := (List.perm_append_singleton e s.accepted).symm
  · show (s.dispatched ++ insertByKey Pending.time e s.list.pendingsources).filter _ =
      ((s.registered ++ [e]).filter fun e => s.list.Accepts e.time).filter _
    rw [haccepted, List.filter_append, List.filter_append, ← h.stable t, List.filter_append]
    by_cases ht : e.time = t
    · rw [filter_insertByKey_of_le (by simpa using ht) hpend (fun y _ hy => ?_),
        List.filter_cons_of_pos (by simpa using ht), List.filter_nil, List.append_assoc]
      exact (of_decide_eq_true hy).trans ht.symm |>.le
    · rw [filter_insertByKey_of_not (by simpa using ht),
        List.filter_cons_of_neg (by simpa using ht), List.filter_nil, List.append_nil]

theorem inv_register {r : Registration Source} (h : Inv s) (hreg : s.register r = some s') :
    Inv s' := by
  obtain ⟨l, hl, hs'⟩ := Option.map_eq_some_iff.mp hreg
  cases hs'
  obtain ⟨hnow, ⟨hacc, rfl⟩ | ⟨hacc, rfl⟩⟩ := sourceIsPending_spec hl
  · exact inv_insert h hnow hacc
  · -- an event beyond the end time is only remembered
    have haccepted : (s.registered ++ [r.pending s.list.now]).filter
        (fun e => s.list.Accepts e.time) = s.accepted := by
      rw [List.filter_append, List.filter_cons_of_neg (by simpa using hacc), List.filter_nil,
        List.append_nil]
      rfl
    exact
      { sorted := h.sorted
        past := h.past
        future := h.future
        perm := h.perm.trans (List.Perm.of_eq haccepted.symm)
        stable := fun t => (h.stable t).trans (congrArg _ haccepted.symm) }

/-- Registering keeps the time and the end time. -/
theorem register_spec {r : Registration Source} (hreg : s.register r = some s') :
    s'.list.now = s.list.now ∧ s'.list.endtime = s.list.endtime := by
  obtain ⟨l, hl, hs'⟩ := Option.map_eq_some_iff.mp hreg
  cases hs'
  obtain ⟨-, ⟨-, rfl⟩ | ⟨-, rfl⟩⟩ := sourceIsPending_spec hl
  · exact ⟨rfl, rfl⟩
  · exact ⟨rfl, rfl⟩

theorem registerAll_spec {rs : List (Registration Source)} (h : Inv s)
    (hreg : s.registerAll rs = some s') :
    Inv s' ∧ s'.list.now = s.list.now ∧ s'.list.endtime = s.list.endtime := by
  induction rs generalizing s with
  | nil =>
    cases hreg
    exact ⟨h, rfl, rfl⟩
  | cons r rs ih =>
    obtain ⟨s₁, hs₁, hrest⟩ := Option.bind_eq_some_iff.mp hreg
    obtain ⟨hinv, hnow, hend⟩ := ih (inv_register h hs₁) hrest
    obtain ⟨hnow₁, hend₁⟩ := register_spec hs₁
    exact ⟨hinv, hnow.trans hnow₁, hend.trans hend₁⟩

/-- The assertion of `sourceIsPending` holds for events that are not in the past. -/
theorem registerAll_isSome {rs : List (Registration Source)}
    (h : ∀ r ∈ rs, s.list.now ≤ (r.pending s.list.now).time) : (s.registerAll rs).isSome := by
  induction rs generalizing s with
  | nil => rfl
  | cons r rs ih =>
    obtain ⟨hr, hrs⟩ := List.forall_mem_cons.mp h
    have hreg : ∃ s₁, s.register r = some s₁ := by
      simp only [register, EventList.sourceIsPending, if_pos hr]
      split_ifs
      · exact ⟨_, rfl⟩
      · exact ⟨_, rfl⟩
    obtain ⟨s₁, hs₁⟩ := hreg
    rw [registerAll, hs₁, Option.bind_some]
    apply ih
    rw [(register_spec hs₁).1]
    exact hrs

/-! ## Dispatching -/

/-- The head of the list is dispatched. -/
theorem inv_pop {e : Pending Source} {rest : List (Pending Source)} (h : Inv s)
    (hpend : s.list.pendingsources = e :: rest) (world : World) :
    Inv
      { s with
        list := { s.list with pendingsources := rest, lasteventtime := e.time }
        world := world
        dispatched := s.dispatched ++ [e] } := by
  have hsame : s.dispatched ++ [e] ++ rest = s.dispatched ++ s.list.pendingsources := by
    rw [hpend, List.append_assoc, List.singleton_append]
  have hnow : s.list.now ≤ e.time := h.future e (by rw [hpend]; exact List.mem_cons_self)
  have hsorted := h.sorted
  rw [hpend] at hsorted
  obtain ⟨-, hrest, -⟩ := List.pairwise_append.mp hsorted
  exact
    { sorted := hsame ▸ h.sorted
      past := fun x hx => by
        rcases List.mem_append.mp hx with hx | hx
        · exact (h.past x hx).trans hnow
        · rw [List.mem_singleton.mp hx]
          exact le_rfl
      future := (List.pairwise_cons.mp hrest).1
      perm := hsame ▸ h.perm
      stable := hsame ▸ h.stable }

/-- What a call of `doNextEvent` comes to. -/
theorem doNextEvent_spec (h : Inv s) (hahead : s.Ahead handler) :
    (s.list.pendingsources = [] ∧ s.doNextEvent handler = .returnsFalse) ∨
      ∃ s', s.doNextEvent handler = .returnsTrue s' ∧ Inv s' ∧ s.list.now ≤ s'.list.now ∧
        s'.list.endtime = s.list.endtime := by
  cases hpend : s.list.pendingsources with
  | nil =>
    left
    simp only [doNextEvent, EventList.next, hpend, and_self]
  | cons e rest =>
    right
    have hnow : s.list.lasteventtime ≤ e.time :=
      h.future e (by rw [hpend]; exact List.mem_cons_self)
    have hnext : s.list.next =
        .event e.src { s.list with pendingsources := rest, lasteventtime := e.time } := by
      simp only [EventList.next, hpend, if_pos hnow]
    -- the simulation as the handler finds it, with what the handler makes of the world
    let s₁ : Simulation Source World :=
      { s with
        list := { s.list with pendingsources := rest, lasteventtime := e.time }
        world := (handler e.src e.time s.world).1
        dispatched := s.dispatched ++ [⟨e.time, e.src⟩] }
    have hpop : Inv s₁ := inv_pop h hpend _
    obtain ⟨s₂, hs₂⟩ : ∃ s₂, s₁.registerAll (handler e.src e.time s.world).2 = some s₂ :=
      Option.isSome_iff_exists.mp (registerAll_isSome (hahead _ _ hnext))
    obtain ⟨hinv, hnow₂, hend₂⟩ := registerAll_spec hpop hs₂
    refine ⟨{ s₂ with list := { s₂.list with nEventsProcessed := s₂.list.nEventsProcessed + 1 } },
      ?_, ⟨hinv.sorted, hinv.past, hinv.future, hinv.perm, hinv.stable⟩,
      hnow.trans_eq hnow₂.symm, hend₂⟩
    simp only [doNextEvent, hnext, EventList.now]
    rw [hs₂]

/-! ## Every run -/

/-- The end time is in place before the first event is registered. -/
theorem inv_setup {endtime : Nat} {world : World} {rs : List (Registration Source)}
    (h : setup endtime world rs = some s) : Inv s ∧ s.list.endtime = endtime := by
  have hempty : Inv
      { list := EventList.get.setEndtime endtime
        world := world
        registered := []
        dispatched := [] : Simulation Source World } :=
    { sorted := List.Pairwise.nil
      past := fun _ he => absurd he List.not_mem_nil
      future := fun _ he => absurd he List.not_mem_nil
      perm := List.Perm.nil
      stable := fun _ => rfl }
  obtain ⟨hinv, -, hend⟩ := registerAll_spec hempty h
  exact ⟨hinv, hend⟩

/-- A simulation can be set up with any events. -/
theorem setup_isSome (endtime : Nat) (world : World) (rs : List (Registration Source)) :
    (setup endtime world rs).isSome :=
  registerAll_isSome fun _ _ => Nat.zero_le _

theorem inv_loop {endtime : Nat} {s₀ : Simulation Source World} {as : List Unit}
    (h₀ : Inv s₀ ∧ s₀.list.endtime = endtime)
    (hahead : (loop handler).Always (Ahead handler) s₀ as)
    (hrun : (loop handler).run s₀ as = some s) : Inv s ∧ s.list.endtime = endtime := by
  refine Lts.run_induction_always (I := fun t => Inv t ∧ t.list.endtime = endtime)
    (fun t _ t' ht hat _ hstep => ?_) h₀ hahead hrun
  rcases doNextEvent_spec ht.1 hat with ⟨-, hend⟩ | ⟨t₁, hnext, hinv, -, hend⟩
  · simp only [loop, hend] at hstep
    cases hstep
  · simp only [loop, hnext] at hstep
    cases hstep
    exact ⟨hinv, hend.trans ht.2⟩

/-- The loop, from any first events and for any number of calls, whose handlers register
    nothing in the past.  Its next call fails no assertion and does not turn back time; what
    it has dispatched is in order of time; the events of one time that were dispatched and
    those still pending are, in this order, those that were registered within the end time,
    in order of registration; and when it returns `false`, it has dispatched all of these. -/
theorem dispatched_in_order
    (handler : Source → Nat → World → World × List (Registration Source))
    (endtime : Nat) (world : World) (rs : List (Registration Source)) (as : List Unit)
    (s₀ s : Simulation Source World) (hsetup : setup endtime world rs = some s₀)
    (hahead : (loop handler).Always (Ahead handler) s₀ as)
    (hrun : (loop handler).run s₀ as = some s) :
    s.doNextEvent handler ≠ .aborts ∧
      (∀ s', s.doNextEvent handler = .returnsTrue s' → s.list.now ≤ s'.list.now) ∧
      s.dispatched.Pairwise (fun a b => a.time ≤ b.time) ∧
      (∀ t, s.dispatched.filter (fun e => e.time = t) ++
          s.list.pendingsources.filter (fun e => e.time = t) =
        (s.registered.filter fun e => endtime = 0 ∨ e.time ≤ endtime).filter fun e => e.time = t) ∧
      (s.doNextEvent handler = .returnsFalse →
        s.dispatched.Perm (s.registered.filter fun e => endtime = 0 ∨ e.time ≤ endtime)) := by
  -- the invariant of the loop gives each part, the next event the two about `doNextEvent`
  obtain ⟨hinv, hend⟩ := inv_loop (inv_setup hsetup) hahead hrun
  have haccepted : s.registered.filter (fun e => endtime = 0 ∨ e.time ≤ endtime) = s.accepted := by
    rw [← hend]
    rfl
  rw [haccepted]
  have hnext := doNextEvent_spec hinv (hahead.last hrun)
  refine ⟨?_, ?_, (List.pairwise_append.mp hinv.sorted).1, fun t => ?_, ?_⟩
  · intro habort
    rcases hnext with ⟨-, hend⟩ | ⟨_, hend, -⟩
    · rw [habort] at hend
      cases hend
    · rw [habort] at hend
      cases hend
  · intro s' hs'
    rcases hnext with ⟨-, hend⟩ | ⟨_, hend, -, hnow, -⟩
    · rw [hs'] at hend
      cases hend
    · rw [hs'] at hend
      cases hend
      exact hnow
  · rw [← List.filter_append]
    exact hinv.stable t
  · intro hfalse
    rcases hnext with ⟨hempty, -⟩ | ⟨_, hend, -⟩
    · have hperm := hinv.perm
      rw [hempty, List.append_nil] at hperm
      exact hperm
    · rw [hfalse] at hend
      cases hend

/-- A source (`true`) that has an event every 5 time units and each time wakes up the other
    one, at once. -/
def ticks : Bool → Nat → Unit → Unit × List (Registration Bool)
  | true, now, () => ((), [.at true (now + 5), .at false now])
  | false, _, () => ((), [])

theorem ahead_ticks (s : Simulation Bool Unit) : s.Ahead ticks := by
  intro src l _ r hr
  cases src with
  | true =>
    rcases List.mem_cons.mp hr with rfl | hr
    · exact Nat.le_add_right _ 5
    · rw [List.mem_singleton.mp hr]
      exact le_rfl
  | false => exact absurd hr List.not_mem_nil

/-- Two events, with the end of the simulation at 7: the event at 8 is not dispatched. -/
theorem dispatched_in_order_ticks :
    ∃ s₀ s, setup 7 () [.at true 3] = some s₀ ∧
      (loop ticks).run s₀ [(), ()] = some s ∧
      s.doNextEvent ticks = .returnsFalse ∧ s.dispatched.Perm [⟨3, true⟩, ⟨3, false⟩] := by
  refine ⟨_, _, rfl, rfl, rfl, ?_⟩
  exact (dispatched_in_order ticks 7 () [.at true 3] [(), ()] _ _ rfl
    ⟨ahead_ticks _, fun _ _ => ⟨ahead_ticks _, fun _ _ => ahead_ticks _⟩⟩ rfl).2.2.2.2 rfl

end Simulation
end Htsim
end DatacenterNetworking
