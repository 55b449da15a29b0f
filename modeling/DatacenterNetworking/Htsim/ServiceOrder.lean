/-
  DatacenterNetworking.Htsim.ServiceOrder

  In which order `FairQueue` and `PriorityQueue` serve and drop packets.  Both keep their
  packets in a multiset, take the first one into service, and drop from the end what does
  not fit: the first is ordered by finish tag and packet id, the second by priority.
  `SortedQueue` is what they share.

  The log of a queue has the entries of its multiset.  What the overflow loop drops is read
  off the loop (`shed`).  While `_queuesize` does not wrap it is the bytes of the packets
  inside (`Exact`).

    * `served_in_order` — the next packet served is the first of those that wait, the next
      one dropped the last, and one is dropped only while there is too much.
-/

import DatacenterNetworking.Htsim.WorkConservation
import DatacenterNetworking.Lib.PushOut

namespace DatacenterNetworking
namespace Htsim

open PushOut (Event Buffer PushesOut entered)

/-- The bytes are those of what is inside, and a word. -/
structure Exact (b : Buffer Nat Packet) : Prop where
  held : b.held = b.load Packet.size
  held_lt : b.held < 2 ^ 64

/-- The entry that is dropped has its size among the bytes. -/
theorem Exact.sub_last {b : Buffer Nat Packet} (h : Exact b) {e : Nat × Packet}
    (he : b.line.getLast? = some e) :
    Word.sub 64 b.held e.2.size = b.held - e.2.size := by
  have hload : b.load Packet.size = (b.dropTail Packet.size).1.load Packet.size + e.2.size :=
    Buffer.load_dropTail he
  rw [← h.held] at hload
  exact Word.sub_of_le (by omega) h.held_lt

/-- The packet in service has its size among the bytes. -/
theorem Exact.sub_current {b : Buffer Nat Packet} (h : Exact b) {pkt : Packet}
    (hpkt : b.current = some pkt) : Word.sub 64 b.held pkt.size = b.held - pkt.size := by
  refine Word.sub_of_le ?_ h.held_lt
  rw [h.held, Buffer.load, hpkt, Option.toList_some, List.map_singleton, List.sum_singleton]
  exact Nat.le_add_left _ _

theorem Exact.dropTail {b : Buffer Nat Packet} (h : Exact b) :
    Exact (b.dropTail Packet.size).1 := by
  cases hlast : b.line.getLast? with
  | none =>
    rw [Buffer.dropTail, hlast]
    exact h
  | some e =>
    have hload : b.load Packet.size = (b.dropTail Packet.size).1.load Packet.size + e.2.size :=
      Buffer.load_dropTail hlast
    have hdrop : (b.dropTail Packet.size).1.held = b.held - e.2.size := by
      simp only [Buffer.dropTail, hlast]
    rw [← h.held] at hload
    exact ⟨by omega, (Buffer.held_dropTail_le b).trans_lt h.held_lt⟩

/-- A queue whose packets are in a multiset, with its overflow loop. -/
structure SortedQueue (σ κ : Type) [LinearOrder κ] where
  view : σ → Buffer Nat Packet
  key : Nat × Packet → κ
  /-- The entry that an arrival becomes. -/
  entry : σ → Packet → Nat × Packet
  enqueue : σ → Packet → σ
  dropTail : σ → σ
  dropOverflow : Nat → σ → σ
  beginService : σ → σ
  finishService : σ → Option σ
  size_entry : ∀ q pkt, (entry q pkt).2.size = pkt.size
  view_enqueue : ∀ {q pkt}, (view q).held + pkt.size < 2 ^ 64 →
    view (enqueue q pkt) = (view q).enqueue key Packet.size (entry q pkt)
  view_dropTail : ∀ {q}, Exact (view q) →
    view (dropTail q) = ((view q).dropTail Packet.size).1
  dropOverflow_zero : ∀ q, dropOverflow 0 q = q
  dropOverflow_succ : ∀ fuel q, dropOverflow (fuel + 1) q =
    if (view q).capacity < (view q).held then dropOverflow fuel (dropTail q) else q
  view_beginService : ∀ q, view (beginService q) = (view q).begin.1
  view_finishService : ∀ {q t}, Exact (view q) → finishService q = some t →
    (view q).finish Packet.size = some (view t)

namespace SortedQueue

variable {σ κ : Type} [LinearOrder κ] (V : SortedQueue σ κ)

/-- An arrival up to the start of a service. -/
def store (q : σ) (pkt : Packet) : σ :=
  V.dropOverflow (V.view (V.enqueue q pkt)).line.length (V.enqueue q pkt)

/-- An arrival. -/
def receivePacket (q : σ) (pkt : Packet) : σ :=
  if (V.view q).wasEmpty then V.beginService (V.store q pkt) else V.store q pkt

/-- The entries that the overflow loop drops. -/
def shed : Nat → σ → List (Nat × Packet)
  | 0, _ => []
  | fuel + 1, q =>
      if (V.view q).capacity < (V.view q).held then
        (V.view q).line.getLast?.toList ++ shed fuel (V.dropTail q)
      else []

/-- The entry that is taken into service. -/
def taking (q : σ) : List (Nat × Packet) := (V.view q).line.take 1

/-- What an arrival does to the entries. -/
def seenArrival (q : σ) (pkt : Packet) : List (Event (Nat × Packet)) :=
  .enter (V.entry q pkt) ::
    ((V.shed (V.view (V.enqueue q pkt)).line.length (V.enqueue q pkt)).map .shed ++
      if (V.view q).wasEmpty then (V.taking (V.store q pkt)).map .take else [])

/-- What the end of a service does to the entries. -/
def seenCompletion (q : σ) : List (Event (Nat × Packet)) :=
  match V.finishService q with
  | none => []
  | some t => .depart :: (V.taking t).map .take

variable {V}

theorem dropTail_view {q : σ} (h : Exact (V.view q)) : (V.view q).dropTail Packet.size =
    (V.view (V.dropTail q), (V.view q).line.getLast?.toList.map Event.shed) := by
  refine Prod.ext (V.view_dropTail h).symm ?_
  rw [Buffer.dropTail]
  cases (V.view q).line.getLast? with
  | none => rfl
  | some e => rfl

/-- The overflow loop is that of the buffer. -/
theorem dropOverflow_view (fuel : Nat) {q : σ} (h : Exact (V.view q)) :
    (V.view q).dropOverflow Packet.size fuel =
      (V.view (V.dropOverflow fuel q), (V.shed fuel q).map Event.shed) := by
  induction fuel generalizing q with
  | zero =>
    rw [V.dropOverflow_zero]
    rfl
  | succ fuel ih =>
    have hdrop : Exact (V.view (V.dropTail q)) := by
      rw [V.view_dropTail h]
      exact h.dropTail
    rw [Buffer.dropOverflow, dropTail_view h, ih hdrop, V.dropOverflow_succ, shed]
    split_ifs
    · rw [List.map_append]
    · rfl

variable {q : σ} {pkt : Packet}

theorem exact_enqueue (h : Exact (V.view q)) (hfits : (V.view q).held + pkt.size < 2 ^ 64) :
    Exact (V.view (V.enqueue q pkt)) := by
  rw [V.view_enqueue hfits]
  refine ⟨?_, ?_⟩
  · rw [Buffer.load_enqueue, ← h.held]
    rfl
  · show (V.view q).held + (V.entry q pkt).2.size < 2 ^ 64
    rw [V.size_entry]
    exact hfits

theorem store_view (h : Exact (V.view q)) (hfits : (V.view q).held + pkt.size < 2 ^ 64) :
    (V.view q).store V.key Packet.size (V.entry q pkt) = (V.view (V.store q pkt),
      .enter (V.entry q pkt) ::
        (V.shed (V.view (V.enqueue q pkt)).line.length (V.enqueue q pkt)).map Event.shed) := by
  rw [Buffer.store, ← V.view_enqueue hfits, dropOverflow_view _ (exact_enqueue h hfits)]
  rfl

theorem begin_view (q : σ) :
    (V.view q).begin = (V.view (V.beginService q), (V.taking q).map Event.take) := by
  refine Prod.ext (V.view_beginService q).symm ?_
  rw [Buffer.begin, taking]
  cases (V.view q).line with
  | nil => rfl
  | cons e rest => rfl

theorem arrive_view (h : Exact (V.view q)) (hfits : (V.view q).held + pkt.size < 2 ^ 64) :
    (V.view q).arrive V.key Packet.size (V.entry q pkt) =
      (V.view (V.receivePacket q pkt), V.seenArrival q pkt) := by
  rw [Buffer.arrive, store_view h hfits, begin_view, receivePacket, seenArrival]
  split_ifs
  · rw [List.cons_append]
  · rw [List.append_nil]

theorem complete_view {t : σ} (h : Exact (V.view q)) (ht : V.finishService q = some t) :
    (V.view q).complete Packet.size =
      some (V.view (V.beginService t), V.seenCompletion q) := by
  rw [Buffer.complete, V.view_finishService h ht, Option.map_some, begin_view, seenCompletion, ht]

theorem entered_seenArrival (q : σ) (pkt : Packet) :
    entered (V.seenArrival q pkt) = [V.entry q pkt] := by
  have hrest : entered ((V.shed (V.view (V.enqueue q pkt)).line.length (V.enqueue q pkt)).map
      Event.shed ++ if (V.view q).wasEmpty then (V.taking (V.store q pkt)).map Event.take
        else []) = [] := by
    rw [PushOut.entered_append, PushOut.entered_map_shed]
    split_ifs
    · exact PushOut.entered_map_take _
    · rfl
  exact congrArg (V.entry q pkt :: ·) hrest

theorem entered_seenCompletion (q : σ) : entered (V.seenCompletion q) = [] := by
  rw [seenCompletion]
  cases V.finishService q with
  | none => rfl
  | some t => exact PushOut.entered_map_take _

variable {capacity : Nat} {log : List (Event (Nat × Packet))}

/-- What the queue did, while the bytes did not wrap. -/
structure Shows (V : SortedQueue σ κ) (capacity : Nat) (log : List (Event (Nat × Packet)))
    (q : σ) : Prop extends PushesOut V.key Packet.size capacity log (V.view q) where
  held_lt : (V.view q).held < 2 ^ 64

theorem Shows.exact (h : Shows V capacity log q) : Exact (V.view q) := ⟨h.held, h.held_lt⟩

theorem shows_receivePacket (h : Shows V capacity log q)
    (hfits : (V.view q).held + pkt.size < 2 ^ 64) :
    Shows V capacity (log ++ V.seenArrival q pkt) (V.receivePacket q pkt) := by
  have harrive := PushOut.pushesOut_arrive h.toPushesOut (V.entry q pkt)
  have hle : ((V.view q).arrive V.key Packet.size (V.entry q pkt)).1.held ≤
      (V.view q).held + (V.entry q pkt).2.size := Buffer.held_arrive_le _ _
  rw [arrive_view h.exact hfits] at harrive hle
  rw [V.size_entry] at hle
  exact ⟨harrive, hle.trans_lt hfits⟩

theorem shows_completeService {t : σ} (h : Shows V capacity log q)
    (ht : V.finishService q = some t) :
    Shows V capacity (log ++ V.seenCompletion q) (V.beginService t) := by
  have hcomplete := complete_view h.exact ht
  exact ⟨PushOut.pushesOut_complete h.toPushesOut hcomplete,
    (Buffer.held_complete_le hcomplete).trans_lt h.held_lt⟩

end SortedQueue

/-! ## `FairQueue` -/

namespace FairQueue

/-- The multiset, the packet in service and the bytes. -/
def view (q : FairQueue) : Buffer Nat Packet :=
  { line := q.packets, current := q.currentPkt, held := q.queuesize, capacity := q.maxsize }

theorem view_dropTail {q : FairQueue} (h : Exact q.view) :
    q.dropTail.1.view = (q.view.dropTail Packet.size).1 := by
  cases hlast : q.packets.getLast? with
  | none => simp only [Buffer.dropTail, dropTail, view, hlast]
  | some e =>
    have hsub : Word.sub 64 q.queuesize e.2.size = q.queuesize - e.2.size := h.sub_last hlast
    simp only [Buffer.dropTail, dropTail, view, hlast, hsub]
    split_ifs
    · rfl
    · rfl

theorem view_beginService (q : FairQueue) : q.beginService.1.view = q.view.begin.1 := by
  cases hpkts : q.packets with
  | nil => simp only [Buffer.begin, view, beginService, hpkts]
  | cons e rest => simp only [Buffer.begin, view, beginService, hpkts]

theorem view_finishService {q : FairQueue} {r : FairQueue × Packet} (hexact : Exact q.view)
    (h : q.finishService = some r) : q.view.finish Packet.size = some r.1.view := by
  unfold finishService at h
  split at h
  next n pkt hpend hcur =>
    cases h
    have hsub : Word.sub 64 q.queuesize pkt.size = q.queuesize - pkt.size :=
      hexact.sub_current hcur
    simp only [Buffer.finish, view, hcur, Option.map_some, forgetServed, hsub]
    split_ifs
    · rfl
    · rfl
  next => cases h

/-- `FairQueue` as a sorted queue. -/
def sorted : SortedQueue FairQueue (ℕ ×ₗ ℕ) where
  view := view
  key := comparedBy
  entry := fun q pkt => (q.finishRound pkt, pkt)
  enqueue := enqueue
  dropTail := fun q => q.dropTail.1
  dropOverflow := fun fuel q => (dropOverflow fuel q).1
  beginService := fun q => q.beginService.1
  finishService := fun q => q.finishService.map Prod.fst
  size_entry := fun _ _ => rfl
  view_enqueue := fun h => by
    rw [Buffer.enqueue, ← Word.add_of_lt h]
    rfl
  view_dropTail := view_dropTail
  dropOverflow_zero := fun _ => rfl
  dropOverflow_succ := fun fuel q => by
    rw [dropOverflow]
    split_ifs with hover hview hview
    · rfl
    · exact absurd hover hview
    · exact absurd hview hover
    · rfl
  view_beginService := view_beginService
  view_finishService := fun hexact h => by
    obtain ⟨r, hr, rfl⟩ := Option.map_eq_some_iff.mp h
    exact view_finishService hexact hr

/-- The queue with its log. -/
structure Logged where
  q : FairQueue
  log : List (Event (Nat × Packet))

/-- What a handler call does to the entries. -/
def logs (q : FairQueue) : Act → List (Event (Nat × Packet))
  | .arrive pkt => sorted.seenArrival q pkt
  | .complete => sorted.seenCompletion q

/-- The queue under any sequence of arrivals and completions. -/
def logged : Lts Logged Act where
  step s a := (s.q.handle a).map fun r => { q := r.1, log := s.log ++ s.q.logs a }

/-- The system as constructed. -/
def Logged.init (bitrate maxsize : Nat) (uninit : Option Packet) : Logged :=
  { q := new bitrate maxsize uninit, log := [] }

theorem receivePacket_sorted (q : FairQueue) (pkt : Packet) :
    sorted.receivePacket q pkt = (q.receivePacket pkt).1 := by
  have hempty : (sorted.view q).wasEmpty = q.wasEmpty := rfl
  rw [SortedQueue.receivePacket, receivePacket, hempty]
  split_ifs
  · rfl
  · rfl

/-- The bytes of an arriving packet do not make `_queuesize` wrap. -/
def BytesFit (s : Logged) : Act → Prop
  | .arrive pkt => s.q.queuesize + pkt.size < 2 ^ 64
  | .complete => True

instance : ∀ s a, Decidable (BytesFit s a)
  | s, .arrive pkt => inferInstanceAs (Decidable (s.q.queuesize + pkt.size < 2 ^ 64))
  | _, .complete => inferInstanceAs (Decidable True)

theorem shows_step {maxsize : Nat} {s t : Logged} {a : Act}
    (h : sorted.Shows maxsize s.log s.q) (hfits : BytesFit s a)
    (hstep : logged.step s a = some t) : sorted.Shows maxsize t.log t.q := by
  obtain ⟨r, hr, rfl⟩ := Option.map_eq_some_iff.mp hstep
  cases a with
  | arrive pkt =>
    cases hr
    have harrive : sorted.Shows maxsize (s.log ++ sorted.seenArrival s.q pkt)
        (sorted.receivePacket s.q pkt) := SortedQueue.shows_receivePacket h hfits
    rw [receivePacket_sorted] at harrive
    exact harrive
  | complete =>
    obtain ⟨u, hu, rfl⟩ := Option.map_eq_some_iff.mp hr
    exact SortedQueue.shows_completeService h (Option.map_eq_some_iff.mpr ⟨u, hu, rfl⟩)

theorem shows_of_run {bitrate maxsize : Nat} {as : List Act} {s : Logged}
    (hfits : logged.Along BytesFit (Logged.init bitrate maxsize none) as)
    (hrun : logged.run (Logged.init bitrate maxsize none) as = some s) :
    sorted.Shows maxsize s.log s.q := by
  have hnew : sorted.Shows maxsize [] (new bitrate maxsize none) :=
    ⟨PushOut.pushesOut_nil maxsize, Nat.two_pow_pos 64⟩
  exact Lts.run_induction_along (I := fun u : Logged => sorted.Shows maxsize u.log u.q)
    (fun _ _ _ hu ha hstep => shows_step hu ha hstep) hnew hfits hrun

end FairQueue

/-! ## `PriorityQueue` -/

namespace PriorityQueue

/-- The multiset, the packet in service and the bytes. -/
def view (q : PriorityQueue) : Buffer Nat Packet :=
  { line := q.packets, current := q.currentPkt, held := q.queuesize, capacity := q.maxsize }

theorem view_dropTail {q : PriorityQueue} (h : Exact q.view) :
    q.dropTail.1.view = (q.view.dropTail Packet.size).1 := by
  cases hlast : q.packets.getLast? with
  | none => simp only [Buffer.dropTail, dropTail, view, hlast]
  | some e =>
    have hsub : Word.sub 64 q.queuesize e.2.size = q.queuesize - e.2.size := h.sub_last hlast
    simp only [Buffer.dropTail, dropTail, view, hlast, hsub]

theorem view_beginService (q : PriorityQueue) : q.beginService.view = q.view.begin.1 := by
  cases hpkts : q.packets with
  | nil => simp only [Buffer.begin, view, beginService, hpkts]
  | cons e rest => simp only [Buffer.begin, view, beginService, hpkts]

theorem view_finishService {q : PriorityQueue} {r : PriorityQueue × Packet}
    (hexact : Exact q.view) (h : q.finishService = some r) :
    q.view.finish Packet.size = some r.1.view := by
  unfold finishService at h
  split at h
  next n pkt hpend hcur =>
    cases h
    have hsub : Word.sub 64 q.queuesize pkt.size = q.queuesize - pkt.size :=
      hexact.sub_current hcur
    simp only [Buffer.finish, view, hcur, Option.map_some, hsub]
  next => cases h

/-- `PriorityQueue` as a sorted queue. -/
def sorted : SortedQueue PriorityQueue Nat where
  view := view
  key := Prod.fst
  entry := fun q pkt => (q.priorities 0, pkt)
  enqueue := enqueue
  dropTail := fun q => q.dropTail.1
  dropOverflow := fun fuel q => (dropOverflow fuel q).1
  beginService := beginService
  finishService := fun q => q.finishService.map Prod.fst
  size_entry := fun _ _ => rfl
  view_enqueue := fun h => by
    rw [Buffer.enqueue, ← Word.add_of_lt h]
    rfl
  view_dropTail := view_dropTail
  dropOverflow_zero := fun _ => rfl
  dropOverflow_succ := fun fuel q => by
    rw [dropOverflow]
    split_ifs with hover hview hview
    · rfl
    · exact absurd hover hview
    · exact absurd hview hover
    · rfl
  view_beginService := view_beginService
  view_finishService := fun hexact h => by
    obtain ⟨r, hr, rfl⟩ := Option.map_eq_some_iff.mp h
    exact view_finishService hexact hr

/-- The queue with its log. -/
structure Logged where
  q : PriorityQueue
  log : List (Event (Nat × Packet))

/-- What a handler call does to the entries. -/
def logs (q : PriorityQueue) : Act → List (Event (Nat × Packet))
  | .arrive pkt => sorted.seenArrival q pkt
  | .complete => sorted.seenCompletion q

/-- The queue under any sequence of arrivals and completions. -/
def logged : Lts Logged Act where
  step s a := (s.q.handle a).map fun r => { q := r.1, log := s.log ++ s.q.logs a }

/-- The system as constructed. -/
def Logged.init (bitrate maxsize : Nat) (uninit : Option Packet) (priorities : Nat → Nat) :
    Logged :=
  { q := new bitrate maxsize uninit priorities, log := [] }

theorem receivePacket_sorted (q : PriorityQueue) (pkt : Packet) :
    sorted.receivePacket q pkt = (q.receivePacket pkt).1 := by
  have hempty : (sorted.view q).wasEmpty = q.wasEmpty := rfl
  rw [SortedQueue.receivePacket, receivePacket, hempty]
  split_ifs
  · rfl
  · rfl

/-- The bytes of an arriving packet do not make `_queuesize` wrap. -/
def BytesFit (s : Logged) : Act → Prop
  | .arrive pkt => s.q.queuesize + pkt.size < 2 ^ 64
  | .complete => True

instance : ∀ s a, Decidable (BytesFit s a)
  | s, .arrive pkt => inferInstanceAs (Decidable (s.q.queuesize + pkt.size < 2 ^ 64))
  | _, .complete => inferInstanceAs (Decidable True)

theorem shows_step {maxsize : Nat} {s t : Logged} {a : Act}
    (h : sorted.Shows maxsize s.log s.q) (hfits : BytesFit s a)
    (hstep : logged.step s a = some t) : sorted.Shows maxsize t.log t.q := by
  obtain ⟨r, hr, rfl⟩ := Option.map_eq_some_iff.mp hstep
  cases a with
  | arrive pkt =>
    cases hr
    have harrive : sorted.Shows maxsize (s.log ++ sorted.seenArrival s.q pkt)
        (sorted.receivePacket s.q pkt) := SortedQueue.shows_receivePacket h hfits
    rw [receivePacket_sorted] at harrive
    exact harrive
  | complete =>
    obtain ⟨u, hu, rfl⟩ := Option.map_eq_some_iff.mp hr
    exact SortedQueue.shows_completeService h (Option.map_eq_some_iff.mpr ⟨u, hu, rfl⟩)

theorem shows_of_run {bitrate maxsize : Nat} {priorities : Nat → Nat} {as : List Act}
    {s : Logged} (hfits : logged.Along BytesFit (Logged.init bitrate maxsize none priorities) as)
    (hrun : logged.run (Logged.init bitrate maxsize none priorities) as = some s) :
    sorted.Shows maxsize s.log s.q := by
  have hnew : sorted.Shows maxsize [] (new bitrate maxsize none priorities) :=
    ⟨PushOut.pushesOut_nil maxsize, Nat.two_pow_pos 64⟩
  exact Lts.run_induction_along (I := fun u : Logged => sorted.Shows maxsize u.log u.q)
    (fun _ _ _ hu ha hstep => shows_step hu ha hstep) hnew hfits hrun

theorem dropOverflow_priorities (fuel : Nat) (q : PriorityQueue) :
    (dropOverflow fuel q).1.priorities = q.priorities := by
  induction fuel generalizing q with
  | zero => rfl
  | succ fuel ih =>
    have hdrop : q.dropTail.1.priorities = q.priorities := by
      rw [dropTail]
      split
      · rfl
      · rfl
    rw [dropOverflow]
    split_ifs
    · exact (ih _).trans hdrop
    · rfl

theorem beginService_priorities (q : PriorityQueue) :
    q.beginService.priorities = q.priorities := by
  rw [beginService]
  split
  · rfl
  · rfl

theorem receivePacket_priorities (q : PriorityQueue) (pkt : Packet) :
    (q.receivePacket pkt).1.priorities = fun n => q.priorities (n + 1) := by
  have hstore : (q.store pkt).1.priorities = fun n => q.priorities (n + 1) :=
    dropOverflow_priorities _ _
  rw [receivePacket]
  split_ifs
  · rw [beginService_priorities, hstore]
  · exact hstore

theorem finishService_priorities {q : PriorityQueue} {r : PriorityQueue × Packet}
    (h : q.finishService = some r) : r.1.priorities = q.priorities := by
  unfold finishService at h
  split at h
  next => cases h; rfl
  next => cases h

/-- The packets that came in got the first priorities, and the next ones are to come. -/
structure Prioritised (priorities : Nat → Nat) (s : Logged) : Prop where
  coming : s.q.priorities = fun n => priorities ((entered s.log).length + n)
  given : (entered s.log).map Prod.fst = (List.range (entered s.log).length).map priorities

theorem prioritised_step {priorities : Nat → Nat} {s t : Logged} {a : Act}
    (h : Prioritised priorities s) (hstep : logged.step s a = some t) :
    Prioritised priorities t := by
  obtain ⟨r, hr, rfl⟩ := Option.map_eq_some_iff.mp hstep
  cases a with
  | arrive pkt =>
    cases hr
    have hentered : entered (s.log ++ s.q.logs (.arrive pkt)) =
        entered s.log ++ [(s.q.priorities 0, pkt)] := by
      rw [PushOut.entered_append]
      exact congrArg (entered s.log ++ ·) (SortedQueue.entered_seenArrival s.q pkt)
    refine ⟨?_, ?_⟩
    · dsimp only
      rw [receivePacket_priorities, hentered, h.coming, List.length_append,
        List.length_singleton]
      exact funext fun n => congrArg priorities (by omega)
    · dsimp only
      rw [hentered, List.map_append, h.given, List.length_append, List.length_singleton,
        List.range_succ, List.map_append, h.coming]
      rfl
  | complete =>
    obtain ⟨u, hu, rfl⟩ := Option.map_eq_some_iff.mp hr
    have hentered : entered (s.log ++ s.q.logs .complete) = entered s.log := by
      rw [PushOut.entered_append]
      exact (congrArg (entered s.log ++ ·) (SortedQueue.entered_seenCompletion s.q)).trans
        (List.append_nil _)
    refine ⟨?_, ?_⟩
    · dsimp only
      rw [beginService_priorities, finishService_priorities hu, hentered]
      exact h.coming
    · dsimp only
      rw [hentered]
      exact h.given

theorem prioritised_of_run {bitrate maxsize : Nat} {priorities : Nat → Nat} {as : List Act}
    {s : Logged}
    (hrun : logged.run (Logged.init bitrate maxsize none priorities) as = some s) :
    Prioritised priorities s :=
  Lts.run_induction (I := Prioritised priorities)
    (fun _ _ _ hu hstep => prioritised_step hu hstep)
    ⟨funext fun n => congrArg priorities (Nat.zero_add n).symm, rfl⟩ hrun

end PriorityQueue

/-! ## The order -/

/-- In every run of either queue in which `_queuesize` does not wrap: the packet taken into
    service is the first of those that wait, the one dropped is the last of them, and one is
    dropped only while the bytes exceed `maxsize`.  After each handler call the bytes do not
    exceed it, and with nothing in service nothing waits. -/
theorem served_in_order (bitrate maxsize : Nat) (priorities : Nat → Nat) :
    (∀ as s, FairQueue.logged.Along FairQueue.BytesFit
        (FairQueue.Logged.init bitrate maxsize none) as →
      FairQueue.logged.run (FairQueue.Logged.init bitrate maxsize none) as = some s →
      PushesOut FairQueue.comparedBy Packet.size maxsize s.log s.q.view) ∧
    (∀ as s, PriorityQueue.logged.Along PriorityQueue.BytesFit
        (PriorityQueue.Logged.init bitrate maxsize none priorities) as →
      PriorityQueue.logged.run
        (PriorityQueue.Logged.init bitrate maxsize none priorities) as = some s →
      PushesOut Prod.fst Packet.size maxsize s.log s.q.view ∧
        (entered s.log).map Prod.fst =
          (List.range (entered s.log).length).map priorities) := by
  refine ⟨fun as s hfits hrun => ?_, fun as s hfits hrun => ?_⟩
  · exact (FairQueue.shows_of_run hfits hrun).toPushesOut
  · exact ⟨(PriorityQueue.shows_of_run hfits hrun).toPushesOut,
      (PriorityQueue.prioritised_of_run hrun).given⟩

/-- The third packet overflows both queues, and a service ends. -/
theorem served_in_order_overflow :
    (∃ s, FairQueue.logged.run (FairQueue.Logged.init 1000 300 none)
        [.arrive ⟨1, 100, 1, false⟩, .arrive ⟨2, 150, 1, false⟩, .arrive ⟨1, 90, 2, false⟩,
          .complete] = some s ∧
      PushesOut FairQueue.comparedBy Packet.size 300 s.log s.q.view) ∧
    (∃ s, PriorityQueue.logged.run (PriorityQueue.Logged.init 1000 300 none fun n => 9 - n)
        [.arrive ⟨1, 100, 1, false⟩, .arrive ⟨2, 150, 1, false⟩, .arrive ⟨1, 90, 2, false⟩,
          .complete] = some s ∧
      PushesOut Prod.fst Packet.size 300 s.log s.q.view ∧
        (entered s.log).map Prod.fst =
          (List.range (entered s.log).length).map fun n => 9 - n) := by
  obtain ⟨hfair, hpriority⟩ := served_in_order 1000 300 fun n => 9 - n
  refine ⟨⟨(FairQueue.logged.run _ _).get (by decide +kernel), (Option.some_get _).symm,
    hfair _ _ (by decide +kernel) (Option.some_get _).symm⟩,
    ⟨(PriorityQueue.logged.run _ _).get (by decide +kernel), (Option.some_get _).symm,
      hpriority _ _ (by decide +kernel) (Option.some_get _).symm⟩⟩

end Htsim
end DatacenterNetworking
