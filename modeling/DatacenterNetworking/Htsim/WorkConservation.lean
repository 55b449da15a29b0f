/-
  DatacenterNetworking.Htsim.WorkConservation

  `FairQueue` and `PriorityQueue` serve one packet at a time, `_currentPkt`.  An arrival
  starts a service when `_currentPkt` is null and nothing waits, a test made before the
  overflow loop, which may drop the packet that arrives.

  Neither constructor sets `_currentPkt`.  Both queues keep their server busy exactly
  when the memory happens to hold a null pointer there; with anything else no arrival
  ever starts a service.
-/

import DatacenterNetworking.Htsim.FairQueue
import DatacenterNetworking.Htsim.PriorityQueue
import DatacenterNetworking.Lib.SingleServer

namespace DatacenterNetworking
namespace Htsim

/-- If a packet waits, then the packet taken from the queue last is in service, and one
    completion event is registered. -/
def WorkConserving (packets : List (Nat × Packet)) (currentPkt : Option Packet)
    (pending : Nat) (taken : List Packet) : Prop :=
  packets ≠ [] → pending = 1 ∧ ∃ pkt, currentPkt = some pkt ∧ taken.getLast? = some pkt

/-! ## `FairQueue` -/

namespace FairQueue

/-- `FairQueue` as a server. -/
def server : Server FairQueue Packet where
  waiting := fun q => q.packets.map Prod.snd
  current := FairQueue.currentPkt
  pending := FairQueue.pending
  store := fun q pkt => (q.store pkt).1
  start := fun q => q.beginService.1
  finish := fun q => q.finishService.map Prod.fst
  store_service := fun q pkt => dropOverflow_service (q.enqueue pkt).packets.length (q.enqueue pkt)
  start_nil := fun h => by rw [beginService_of_nil (List.map_eq_nil_iff.mp h)]
  start_cons := fun h => by
    obtain ⟨e, rest, hcons, rfl, -⟩ := List.map_eq_cons_iff.mp h
    rw [beginService_of_cons hcons]
    exact ⟨rfl, rfl⟩
  finish_service := fun h => by
    obtain ⟨r, hr, rfl⟩ := Option.map_eq_some_iff.mp h
    unfold finishService at hr
    split at hr
    next n p hpend hcur =>
      cases hr
      exact ⟨hpend, rfl⟩
    next => cases hr

variable {q : FairQueue}

theorem begin_eq (q : FairQueue) : server.begin q = q.beginService := by
  cases hpkts : q.packets with
  | nil => simp [Server.begin, server, beginService, hpkts]
  | cons e rest => simp [Server.begin, server, beginService, hpkts]

theorem wasEmpty_eq (q : FairQueue) : server.wasEmpty q = q.wasEmpty := by
  show (q.currentPkt.isNone && (q.packets.map Prod.snd).isEmpty) = _
  rw [List.isEmpty_map]
  rfl

theorem arrive_eq (q : FairQueue) (pkt : Packet) : server.arrive q pkt = q.receivePacket pkt := by
  rw [Server.arrive, receivePacket, wasEmpty_eq, begin_eq]
  rfl

theorem complete_eq (q : FairQueue) : server.complete q = q.completeService := by
  show (q.finishService.map Prod.fst).map server.begin = q.finishService.map _
  rw [Option.map_map]
  exact congrArg (fun k => q.finishService.map k) (funext fun r => begin_eq r.1)

/-- A handler call is a step of the server. -/
theorem handle_eq (q : FairQueue) (a : Act) :
    q.handle a = match a with
      | .arrive pkt => some (server.arrive q pkt)
      | .complete => server.complete q := by
  cases a with
  | arrive pkt => exact congrArg some (arrive_eq q pkt).symm
  | complete => exact (complete_eq q).symm

theorem serving_step {s t : State} {a : Act} (h : server.Serving s.q s.taken)
    (hstep : system.step s a = some t) : server.Serving t.q t.taken := by
  obtain ⟨r, hr, rfl⟩ := Option.map_eq_some_iff.mp hstep
  rw [handle_eq] at hr
  cases a with
  | arrive pkt =>
    cases hr
    exact Server.serving_arrive h pkt
  | complete => exact Server.serving_complete h hr

/-- From a null `_currentPkt` on the server is idle or busy. -/
theorem serving_of_run {bitrate maxsize : Nat} {as : List Act} {s : State}
    (hrun : system.run (init bitrate maxsize none) as = some s) :
    server.Serving s.q s.taken :=
  Lts.run_induction (I := fun u => server.Serving u.q u.taken)
    (fun _ _ _ hu hstep => serving_step hu hstep) (Or.inl ⟨rfl, rfl, rfl⟩) hrun

/-- The packets waiting, the packet in service and the completion events of a state. -/
def Conserves (s : State) : Prop :=
  WorkConserving s.q.packets s.q.currentPkt s.q.pending s.taken

end FairQueue

/-- A server that is idle or busy is busy when something waits. -/
theorem workConserving_of_serving {σ : Type} {V : Server σ Packet} {s : σ}
    {packets : List (Nat × Packet)} {taken : List Packet} (h : V.Serving s taken)
    (hwait : V.waiting s = packets.map Prod.snd) :
    WorkConserving packets (V.current s) (V.pending s) taken := by
  intro hne
  rcases h with hidle | hbusy
  · have hnil := hwait.symm.trans hidle.waiting
    exact absurd (List.map_eq_nil_iff.mp hnil) hne
  · exact ⟨hbusy.pending, hbusy.current⟩

/-! ## `PriorityQueue` -/

namespace PriorityQueue

/-- The packet that `beginService` takes into service. -/
def taking (q : PriorityQueue) : List Packet := (q.packets.map Prod.snd).take 1

/-- `PriorityQueue` as a server. -/
def server : Server PriorityQueue Packet where
  waiting := fun q => q.packets.map Prod.snd
  current := PriorityQueue.currentPkt
  pending := PriorityQueue.pending
  store := fun q pkt => (q.store pkt).1
  start := beginService
  finish := fun q => q.finishService.map Prod.fst
  store_service := fun q pkt => (store_spec q pkt).2
  start_nil := fun h => by simp only [beginService, List.map_eq_nil_iff.mp h]
  start_cons := fun h => by
    obtain ⟨e, rest, hcons, rfl, -⟩ := List.map_eq_cons_iff.mp h
    simp only [beginService, hcons, and_self]
  finish_service := fun h => by
    obtain ⟨r, hr, rfl⟩ := Option.map_eq_some_iff.mp h
    unfold finishService at hr
    split at hr
    next n p hpend hcur =>
      cases hr
      exact ⟨hpend, rfl⟩
    next => cases hr

/-- What drives the queue: a packet arrives, or a completion event fires. -/
inductive Act where
  | arrive (pkt : Packet)
  | complete

/-- The queue with the packets taken into service so far, in order. -/
structure State where
  q : PriorityQueue
  taken : List Packet

/-- One handler call, with the packets it takes into service. -/
def handle (q : PriorityQueue) : Act → Option (PriorityQueue × List Packet)
  | .arrive pkt =>
      some ((q.receivePacket pkt).1, if q.wasEmpty then (q.store pkt).1.taking else [])
  | .complete => q.finishService.map fun r => (r.1.beginService, r.1.taking)

/-- The queue under any sequence of arrivals and completions. -/
def system : Lts State Act where
  step s a := (s.q.handle a).map fun r => { q := r.1, taken := s.taken ++ r.2 }

/-- The system as constructed. -/
def init (bitrate maxsize : Nat) (uninit : Option Packet) (priorities : Nat → Nat) : State :=
  { q := new bitrate maxsize uninit priorities, taken := [] }

/-- The completions are those of the queue. -/
theorem handle_complete (q : PriorityQueue) :
    (q.handle .complete).map Prod.fst = q.completeService.map Prod.fst := by
  simp only [handle, completeService, Option.map_map]
  rfl

variable {q : PriorityQueue}

theorem wasEmpty_eq (q : PriorityQueue) : server.wasEmpty q = q.wasEmpty := by
  show (q.currentPkt.isNone && (q.packets.map Prod.snd).isEmpty) = _
  rw [List.isEmpty_map]
  rfl

/-- A handler call is a step of the server. -/
theorem handle_eq (q : PriorityQueue) (a : Act) :
    q.handle a = match a with
      | .arrive pkt => some (server.arrive q pkt)
      | .complete => server.complete q := by
  cases a with
  | arrive pkt =>
    simp only [handle, receivePacket, Server.arrive, wasEmpty_eq]
    split_ifs
    · rfl
    · rfl
  | complete =>
    simp only [handle, Server.complete, server, Option.map_map]
    rfl

theorem serving_step {s t : State} {a : Act} (h : server.Serving s.q s.taken)
    (hstep : system.step s a = some t) : server.Serving t.q t.taken := by
  obtain ⟨r, hr, rfl⟩ := Option.map_eq_some_iff.mp hstep
  rw [handle_eq] at hr
  cases a with
  | arrive pkt =>
    cases hr
    exact Server.serving_arrive h pkt
  | complete => exact Server.serving_complete h hr

/-- From a null `_currentPkt` on the server is idle or busy. -/
theorem serving_of_run {bitrate maxsize : Nat} {priorities : Nat → Nat} {as : List Act}
    {s : State} (hrun : system.run (init bitrate maxsize none priorities) as = some s) :
    server.Serving s.q s.taken :=
  Lts.run_induction (I := fun u => server.Serving u.q u.taken)
    (fun _ _ _ hu hstep => serving_step hu hstep) (Or.inl ⟨rfl, rfl, rfl⟩) hrun

/-- The packets waiting, the packet in service and the completion events of a state. -/
def Conserves (s : State) : Prop :=
  WorkConserving s.q.packets s.q.currentPkt s.q.pending s.taken

end PriorityQueue

/-! ## The initial value -/

/-- A packet that fits any queue. -/
def emptyPacket : Packet := { flow := 0, size := 0, id := 0 }

theorem FairQueue.store_emptyPacket (bitrate maxsize : Nat) (uninit : Option Packet) :
    ((new bitrate maxsize uninit).store emptyPacket).1.packets ≠ [] := by
  simp [store, dropOverflow, enqueue, new, emptyPacket, Word.add]

theorem PriorityQueue.store_emptyPacket (bitrate maxsize : Nat) (uninit : Option Packet)
    (priorities : Nat → Nat) :
    ((new bitrate maxsize uninit priorities).store emptyPacket).1.packets ≠ [] := by
  simp [store, dropOverflow, enqueue, new, emptyPacket, Word.add]

/-- A jammed server does not conserve work once it stores a packet. -/
theorem not_workConserving_of_jammed {σ : Type} {V : Server σ Packet} {s : σ}
    {packets : List (Nat × Packet)} (h : V.Jammed s) (hne : packets ≠ []) (taken : List Packet) :
    ¬ WorkConserving packets (V.current s) (V.pending s) taken := by
  intro hconserves
  have hpending := (hconserves hne).1
  rw [h.pending] at hpending
  omega

/-- With a current packet that it never took, the queue does not serve the first packet. -/
theorem FairQueue.jams (bitrate maxsize : Nat) {uninit : Option Packet} (hsome : uninit ≠ none) :
    ∃ s, system.run (init bitrate maxsize uninit) [.arrive emptyPacket] = some s ∧
      ¬ Conserves s := by
  have hjam : server.Jammed (new bitrate maxsize uninit) := ⟨rfl, hsome⟩
  obtain ⟨harrive, hjam'⟩ := Server.jammed_arrive hjam emptyPacket
  have hhandle := handle_eq (new bitrate maxsize uninit) (.arrive emptyPacket)
  simp only [harrive] at hhandle
  refine ⟨{ q := ((new bitrate maxsize uninit).store emptyPacket).1, taken := [] }, ?_, ?_⟩
  · simp only [Lts.run_cons, system, init, hhandle]
    rfl
  · -- the packet waits, and no completion is pending
    exact not_workConserving_of_jammed hjam' (store_emptyPacket bitrate maxsize uninit) []

theorem PriorityQueue.jams (bitrate maxsize : Nat) {uninit : Option Packet}
    (hsome : uninit ≠ none) (priorities : Nat → Nat) :
    ∃ s, system.run (init bitrate maxsize uninit priorities) [.arrive emptyPacket] = some s ∧
      ¬ Conserves s := by
  have hjam : server.Jammed (new bitrate maxsize uninit priorities) := ⟨rfl, hsome⟩
  obtain ⟨harrive, hjam'⟩ := Server.jammed_arrive hjam emptyPacket
  have hhandle := handle_eq (new bitrate maxsize uninit priorities) (.arrive emptyPacket)
  simp only [harrive] at hhandle
  refine ⟨{ q := ((new bitrate maxsize uninit priorities).store emptyPacket).1, taken := [] },
    ?_, ?_⟩
  · simp only [Lts.run_cons, system, init, hhandle]
    rfl
  · exact not_workConserving_of_jammed hjam'
      (store_emptyPacket bitrate maxsize uninit priorities) []

/-- The queues conserve work in every run exactly if their constructors leave a null pointer
    in `_currentPkt`. -/
theorem workConserving_iff (bitrate maxsize : Nat) (uninit : Option Packet)
    (priorities : Nat → Nat) :
    ((∀ as s, FairQueue.system.run (FairQueue.init bitrate maxsize uninit) as = some s →
        FairQueue.Conserves s) ↔ uninit = none) ∧
    ((∀ as s, PriorityQueue.system.run
        (PriorityQueue.init bitrate maxsize uninit priorities) as = some s →
        PriorityQueue.Conserves s) ↔ uninit = none) := by
  refine ⟨⟨fun hall => ?_, ?_⟩, ⟨fun hall => ?_, ?_⟩⟩
  · by_contra hsome
    obtain ⟨s, hrun, hnot⟩ := FairQueue.jams bitrate maxsize hsome
    exact hnot (hall _ _ hrun)
  · rintro rfl as s hrun
    exact workConserving_of_serving (FairQueue.serving_of_run hrun) rfl
  · by_contra hsome
    obtain ⟨s, hrun, hnot⟩ := PriorityQueue.jams bitrate maxsize hsome priorities
    exact hnot (hall _ _ hrun)
  · rintro rfl as s hrun
    exact workConserving_of_serving (PriorityQueue.serving_of_run hrun) rfl

/-- Whatever packet the memory names, one of 1500 bytes then waits for a service that nothing
    starts. -/
theorem uninit_jams :
    ¬ ∀ (uninit : Option Packet) (as : List FairQueue.Act) (s : FairQueue.State),
      FairQueue.system.run (FairQueue.init 10000000000 15000 uninit) as = some s →
        FairQueue.Conserves s := by
  intro hall
  have hwaits := hall (some ⟨7, 1500, 3, false⟩) [.arrive ⟨1, 1500, 1, false⟩] _ rfl
  have hpending := (hwaits (by decide)).1
  exact absurd hpending (by decide)

end Htsim
end DatacenterNetworking
