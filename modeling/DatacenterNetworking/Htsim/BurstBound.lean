/-
  DatacenterNetworking.Htsim.BurstBound

  What the plain queue guarantees to arrivals of bounded burstiness.  The arrivals are
  shaped (`Shaped`): to a rate of a byte in `r` picoseconds, with bursts of `burst` bytes
  and packets of at most `L`.

  `shaped_served`: a queue of at least that rate with room for `burst + L` bytes drops
  nothing, has every packet out within `burst * _ps_per_byte` of its arrival, and what
  leaves it is shaped again.  With `burst` below the threshold of DCTCP it marks nothing.

  `busy_periods`: without any assumption on the arrivals, each departure ends a stretch
  of back-to-back services that began with a packet that did not wait.
-/

import DatacenterNetworking.Htsim.FifoQueue
import DatacenterNetworking.Lib.Lindley

namespace DatacenterNetworking
namespace Htsim
namespace FifoQueue

open Lindley (finish volume volume_cons volume_append Conforms Delayed)

/-- Times and sizes of packets. -/
def jobs (l : List (Nat × Packet)) : List (Nat × Nat) := l.map fun e => (e.1, e.2.size)

@[simp] theorem jobs_append (l l' : List (Nat × Packet)) : jobs (l ++ l') = jobs l ++ jobs l' :=
  List.map_append

@[simp] theorem jobs_cons (e : Nat × Packet) (l : List (Nat × Packet)) :
    jobs (e :: l) = (e.1, e.2.size) :: jobs l := rfl

/-- The arrivals that have been accepted, with the one that comes, leave no burst of more than
    `B` picoseconds at the rate of a byte in `r`. -/
def Shaped (r B L : Nat) (s : Component.State FifoQueue) : Component.Act → Prop
  | .arrive pkt => pkt.size ≤ L ∧
      finish r 0 (jobs (s.comp.accepted ++ [(s.list.now, pkt)])) ≤ s.list.now + B
  | _ => True

instance (r B L : Nat) (s : Component.State FifoQueue) :
    (a : Component.Act) → Decidable (Shaped r B L s a)
  | .arrive _ => inferInstanceAs (Decidable (_ ∧ _))
  | .register _ _ => isTrue trivial
  | .dispatch _ => isTrue trivial

/-! ### The schedule as one of jobs -/

theorem lastTime_departures (ps d : Nat) (acc : List (Nat × Packet)) :
    lastTime d (departures ps d acc) = finish ps d (jobs acc) := by
  induction acc generalizing d with
  | nil => rfl
  | cons x rest ih =>
    obtain ⟨a, pkt⟩ := x
    exact ih _

theorem departures_snd (ps d : Nat) (acc : List (Nat × Packet)) :
    (departures ps d acc).map Prod.snd = acc.map Prod.snd := by
  induction acc generalizing d with
  | nil => rfl
  | cons x rest ih =>
    obtain ⟨a, pkt⟩ := x
    rw [departures, List.map_cons, List.map_cons, ih]

/-- The part of a schedule up to a packet is that of the arrivals up to it. -/
theorem departures_split {ps d : Nat} {acc before after : List (Nat × Packet)} {x : Nat × Packet}
    (h : departures ps d acc = before ++ x :: after) :
    ∃ pre a post, acc = pre ++ (a, x.2) :: post ∧ departures ps d pre = before ∧
      x.1 = finish ps d (jobs (pre ++ [(a, x.2)])) ∧
      departures ps x.1 post = after := by
  induction acc generalizing d before with
  | nil =>
    rw [departures] at h
    exact absurd h.symm (List.append_ne_nil_of_right_ne_nil _ (List.cons_ne_nil _ _))
  | cons y rest ih =>
    obtain ⟨a, pkt⟩ := y
    rw [departures] at h
    cases before with
    | nil =>
      obtain ⟨hx, hrest⟩ := List.cons.inj h
      refine ⟨[], a, rest, ?_, rfl, ?_, ?_⟩
      · rw [← hx]
        rfl
      · rw [← hx]
        rfl
      · rw [← hx]
        exact hrest
    | cons w before =>
      obtain ⟨hw, hrest⟩ := List.cons.inj h
      obtain ⟨pre, a', post, hacc, hpre, hx, hpost⟩ := ih hrest
      refine ⟨(a, pkt) :: pre, a', post, ?_, ?_, hx, hpost⟩
      · rw [hacc]
        rfl
      · rw [departures, hpre, hw]

/-- Every packet departs within `D`, if its server is done with it by then. -/
theorem delayed_departures {ps D : Nat} {acc : List (Nat × Packet)}
    (h : Conforms ps D (jobs acc)) : Delayed D (jobs acc) (jobs (departures ps 0 acc)) := by
  induction acc using List.reverseRecOn with
  | nil => exact List.Forall₂.nil
  | append_singleton acc e ih =>
    obtain ⟨a, pkt⟩ := e
    rw [jobs_append] at h
    obtain ⟨hacc, hlast⟩ := Lindley.conforms_concat.mp h
    rw [departures_append, jobs_append, jobs_append]
    refine List.rel_append (ih hacc) (List.Forall₂.cons ⟨rfl, ?_, ?_⟩ List.Forall₂.nil)
    · exact (Nat.le_max_left _ _).trans (Nat.le_add_right _ _)
    · rw [Lindley.finish_append, ← lastTime_departures] at hlast
      exact hlast

/-! ### The queue on shaped arrivals -/

variable {cfg : QueueCfg} {s t : Component.State FifoQueue} {d : DueLine Packet}

theorem psPerByte_pos (cfg : QueueCfg) : 0 < cfg.psPerByte :=
  Nat.div_pos cfg.bitrate_le cfg.bitrate_pos

/-- The bytes in the queue behind the packet that is served. -/
def waiting (q : FifoQueue) : Nat := (q.enqueued.tail.map Packet.size).sum

theorem waiting_nil {q : FifoQueue} (h : q.enqueued = []) : q.waiting = 0 := by
  rw [waiting, h]
  rfl

theorem bytes_cons {q : FifoQueue} {pkt : Packet} {rest : List Packet}
    (h : q.enqueued = pkt :: rest) : q.bytes = pkt.size + q.waiting := by
  rw [bytes, waiting, h, List.map_cons, List.sum_cons, List.tail_cons]

/-- If the server is done with all packets within the time for `b` bytes, then no more wait. -/
theorem waiting_le_of_finish {b : Nat} {more : List (Nat × Packet)} (h : Refines cfg s d)
    (hline : s.comp.enqueued ≠ [])
    (hall : finish cfg.psPerByte 0 (jobs (s.comp.accepted ++ more)) ≤
      s.list.now + b * cfg.psPerByte) : s.comp.waiting + volume (jobs more) ≤ b := by
  obtain ⟨e, rest, hcons⟩ := List.exists_cons_of_ne_nil (mt (enqueued_eq_nil h).mpr hline)
  have hsched : departures cfg.psPerByte 0 s.comp.accepted = d.left ++ e :: rest := by
    rw [← h.entered, DueLine.entered, hcons]
  -- the packet that is served departs now or later
  obtain ⟨pre, a, post, hacc, -, he, hpost⟩ := departures_split hsched
  have hnow : s.list.now ≤ e.1 := now_le_of_line h hcons
  rw [hacc, List.append_assoc, List.cons_append, jobs_append, jobs_cons] at hall
  rw [he, jobs_append] at hnow
  have hvol := Lindley.volume_le_of_finish (psPerByte_pos cfg) hnow hall
  have hwaiting : s.comp.waiting = volume (jobs post) := by
    have hsnd := departures_snd cfg.psPerByte e.1 post
    rw [hpost] at hsnd
    rw [waiting, h.line, hcons, List.map_cons, List.tail_cons, hsnd, volume, jobs, List.map_map,
      List.map_map]
    rfl
  rw [hwaiting, ← volume_append, ← jobs_append]
  exact hvol

/-- What holds between the steps, with a line as in `Refines`. -/
structure Calm (cfg : QueueCfg) (r burst L : Nat) (s : Component.State FifoQueue)
    (d : DueLine Packet) : Prop where
  refines : Refines cfg s d
  lossless : s.comp.dropped = []
  sorted : s.comp.accepted.Pairwise fun a b => a.1 ≤ b.1
  conforms : Conforms r (burst * r) (jobs s.comp.accepted)
  small : ∀ p ∈ s.comp.enqueued, p.size ≤ L
  unmarked : burst ≤ dctcpThreshold cfg.bitrate →
    s.comp.sentOn = s.comp.departed.map Prod.snd

variable {r burst L : Nat}

theorem calm_start (cfg : QueueCfg) (r burst L : Nat) : Calm cfg r burst L start DueLine.empty where
  refines := refines_start cfg
  lossless := rfl
  sorted := List.Pairwise.nil
  conforms := Lindley.conforms_nil
  small := fun _ hp => absurd hp List.not_mem_nil
  unmarked := fun _ => rfl

theorem conforms_own {l : List (Nat × Packet)} (hsorted : l.Pairwise fun a b => a.1 ≤ b.1)
    (hr : cfg.psPerByte ≤ r) (h : Conforms r (burst * r) (jobs l)) :
    Conforms cfg.psPerByte (burst * cfg.psPerByte) (jobs l) :=
  Conforms.faster (List.pairwise_map.mpr hsorted) hr h

/-- The server is done with everything by the time for one burst. -/
theorem finish_le_now {l : List (Nat × Packet)} {now : Nat}
    (hsorted : l.Pairwise fun a b => a.1 ≤ b.1) (hr : cfg.psPerByte ≤ r)
    (h : Conforms r (burst * r) (jobs l)) (hnow : ∀ e ∈ l, e.1 ≤ now) :
    finish cfg.psPerByte 0 (jobs l) ≤ now + burst * cfg.psPerByte := by
  induction l using List.reverseRecOn with
  | nil => exact Nat.zero_le _
  | append_singleton l e _ =>
    have hle := (conforms_own hsorted hr h).finish_le (y := (e.1, e.2.size)) (by simp [jobs])
    have he := hnow e (by simp)
    omega

/-- The packets behind the one that is served are one burst. -/
theorem Calm.waiting_le (h : Calm cfg r burst L s d) (hr : cfg.psPerByte ≤ r) :
    s.comp.waiting ≤ burst := by
  by_cases hempty : s.comp.enqueued = []
  · rw [waiting_nil hempty]
    exact Nat.zero_le _
  · have hall := finish_le_now h.sorted hr h.conforms h.refines.arrived
    rw [← List.append_nil s.comp.accepted] at hall
    exact waiting_le_of_finish h.refines hempty hall

theorem Calm.bytes_le (h : Calm cfg r burst L s d) (hr : cfg.psPerByte ≤ r) :
    s.comp.bytes ≤ burst + L := by
  cases hq : s.comp.enqueued with
  | nil =>
    rw [bytes, hq]
    exact Nat.zero_le _
  | cons pkt rest =>
    have hsmall := h.small pkt (by rw [hq]; exact List.mem_cons_self)
    have hwait := h.waiting_le hr
    rw [bytes_cons hq]
    omega

section Step

variable (hr : cfg.psPerByte ≤ r) (hroom : burst + L ≤ cfg.maxsize)
  (hwide : L * cfg.psPerByte < 2 ^ 64)
include hr

/-- The stream with the packet that arrives. -/
theorem Calm.extended {pkt : Packet} (h : Calm cfg r burst L s d)
    (hshaped : Shaped r (burst * r) L s (.arrive pkt)) :
    (s.comp.accepted ++ [(s.list.now, pkt)]).Pairwise (fun a b => a.1 ≤ b.1) ∧
      Conforms r (burst * r) (jobs (s.comp.accepted ++ [(s.list.now, pkt)])) ∧
      s.comp.bytes + pkt.size ≤ burst + L := by
  have hsorted : (s.comp.accepted ++ [(s.list.now, pkt)]).Pairwise fun a b => a.1 ≤ b.1 := by
    refine List.pairwise_append.mpr ⟨h.sorted, List.pairwise_singleton _ _, fun x hx y hy => ?_⟩
    rw [List.mem_singleton.mp hy]
    exact h.refines.arrived x hx
  have hconf : Conforms r (burst * r) (jobs (s.comp.accepted ++ [(s.list.now, pkt)])) := by
    have hfinish := hshaped.2
    rw [jobs_append] at hfinish ⊢
    exact Lindley.conforms_concat.mpr ⟨h.conforms, hfinish⟩
  refine ⟨hsorted, hconf, ?_⟩
  cases hq : s.comp.enqueued with
  | nil =>
    have hsize := hshaped.1
    rw [bytes, hq, List.map_nil, List.sum_nil]
    omega
  | cons p rest =>
    have hp := h.small p (by rw [hq]; exact List.mem_cons_self)
    have harrived : ∀ e ∈ s.comp.accepted ++ [(s.list.now, pkt)], e.1 ≤ s.list.now := by
      intro e he
      rcases List.mem_append.mp he with hold | hnew
      · exact h.refines.arrived e hold
      · rw [List.mem_singleton.mp hnew]
    have hfinish := finish_le_now hsorted hr hconf harrived
    have hwait : s.comp.waiting + pkt.size ≤ burst :=
      waiting_le_of_finish h.refines (by rw [hq]; exact List.cons_ne_nil p rest) hfinish
    rw [bytes_cons hq]
    omega

include hroom

/-- The packet that arrives is accepted. -/
theorem Calm.accepts {pkt : Packet} (h : Calm cfg r burst L s d)
    (hshaped : Shaped r (burst * r) L s (.arrive pkt))
    (hstep : (component cfg).step s (.arrive pkt) = some t) :
    t.comp.dropped = s.comp.dropped ∧ t.comp.enqueued = s.comp.enqueued ++ [pkt] ∧
      t.comp.accepted = s.comp.accepted ++ [(s.list.now, pkt)] ∧
      t.comp.departed = s.comp.departed ∧ t.comp.sentOn = s.comp.sentOn := by
  obtain ⟨-, -, hbytes⟩ := h.extended hr hshaped
  rw [← h.refines.size_eq] at hbytes
  rcases arrive_cases hstep with ⟨hfull, -⟩ | ⟨-, l, -, rfl⟩
  · have hle := Nat.mod_le (s.comp.queuesize + pkt.size) (2 ^ 64)
    omega
  · exact ⟨rfl, rfl, rfl, rfl, rfl⟩

include hwide

/-- Nothing wraps. -/
theorem Calm.fits {a : Component.Act} (h : Calm cfg r burst L s d)
    (hshaped : Shaped r (burst * r) L s a) : Fits cfg s a := by
  have hlt := cfg.maxsize_lt
  have hshort : ∀ {size : Nat}, size ≤ L → size * cfg.psPerByte < 2 ^ 64 := fun hsize =>
    (Nat.mul_le_mul_right _ hsize).trans_lt hwide
  cases a with
  | register id time => trivial
  | arrive pkt =>
    intro _
    obtain ⟨-, -, hbytes⟩ := h.extended hr hshaped
    rw [← h.refines.size_eq] at hbytes
    exact ⟨by omega, fun _ => hshort hshaped.1⟩
  | dispatch others =>
    intro l _ pkt hpkt
    exact hshort (h.small pkt (List.mem_of_mem_tail (List.mem_of_mem_head? hpkt)))

end Step

/-- What a step leaves of the queue that is neither an arrival nor its own event. -/
theorem comp_of_idle {a : Component.Act}
    (hidle : ∀ others l, a = .dispatch others → s.list.next ≠ .event .self l)
    (harrive : ∀ pkt, a ≠ .arrive pkt) (hstep : (component cfg).step s a = some t) :
    t.comp = s.comp := by
  cases a with
  | register id time =>
    obtain ⟨l, -, rfl⟩ := Option.map_eq_some_iff.mp hstep
    rfl
  | arrive pkt => exact absurd rfl (harrive pkt)
  | dispatch others =>
    cases hnext : s.list.next with
    | nothing =>
      simp only [Component.step, hnext] at hstep
      cases hstep
    | abort =>
      simp only [Component.step, hnext] at hstep
      cases hstep
    | event src l =>
      cases src with
      | self => exact absurd hnext (hidle others l rfl)
      | other id =>
        simp only [Component.step, hnext] at hstep
        obtain ⟨l', -, rfl⟩ := Option.map_eq_some_iff.mp hstep
        rfl

/-- What the departure of a packet does. -/
theorem departure_cases {others : List (Nat × UInt64)} {l : EventList Source}
    (h : Refines cfg s d) (hnext : s.list.next = .event .self l)
    (hstep : (component cfg).step s (.dispatch others) = some t) :
    ∃ pkt, s.comp.enqueued = pkt :: t.comp.enqueued ∧ t.comp.accepted = s.comp.accepted ∧
      t.comp.dropped = s.comp.dropped ∧ t.comp.departed = s.comp.departed ++ [(l.now, pkt)] ∧
      t.comp.sentOn = s.comp.sentOn ++ [applyEcnMark cfg.bitrate s.comp.waiting pkt] := by
  obtain ⟨-, -, pkt, rest, hline⟩ := front_of_self h.follows hnext
  have hqueue : s.comp.enqueued = pkt :: rest.map Prod.snd := by
    rw [h.line, hline]
    rfl
  have hleft : (s.comp.queuesize + 2 ^ 64 - pkt.size) % 2 ^ 64 = s.comp.waiting := by
    have hsize := h.size_eq
    have hmax := h.size_le
    have hlt := cfg.maxsize_lt
    rw [bytes_cons hqueue] at hsize
    omega
  simp only [Component.step, hnext, component, doNextEvent, hqueue, Option.bind_some,
    hleft] at hstep
  obtain ⟨l₂, -, hlast⟩ := Option.bind_eq_some_iff.mp hstep
  obtain ⟨l₃, -, rfl⟩ := Option.map_eq_some_iff.mp hlast
  exact ⟨pkt, hqueue, rfl, rfl, rfl, rfl⟩

/-- A step on shaped arrivals. -/
theorem calm_step {a : Component.Act} (hr : cfg.psPerByte ≤ r) (hroom : burst + L ≤ cfg.maxsize)
    (hwide : L * cfg.psPerByte < 2 ^ 64) (h : Calm cfg r burst L s d)
    (hshaped : Shaped r (burst * r) L s a) (hstep : (component cfg).step s a = some t) :
    ∃ d', Calm cfg r burst L t d' := by
  obtain ⟨d', hrefines⟩ := refines_step h.refines (h.fits hr hroom hwide hshaped) hstep
  refine ⟨d', ?_⟩
  by_cases harrive : ∃ pkt, a = .arrive pkt
  · obtain ⟨pkt, rfl⟩ := harrive
    obtain ⟨hdropped, henq, hacc, hdep, hsent⟩ := h.accepts hr hroom hshaped hstep
    obtain ⟨hsorted, hconf, -⟩ := h.extended hr hshaped
    refine ⟨hrefines, hdropped.trans h.lossless, ?_, ?_, fun p hp => ?_, ?_⟩
    · rw [hacc]
      exact hsorted
    · rw [hacc]
      exact hconf
    · rw [henq] at hp
      rcases List.mem_append.mp hp with hold | hnew
      · exact h.small p hold
      · rw [List.mem_singleton.mp hnew]
        exact hshaped.1
    · rw [hsent, hdep]
      exact h.unmarked
  by_cases hself : ∃ others l, a = .dispatch others ∧ s.list.next = .event .self l
  · obtain ⟨others, l, rfl, hnext⟩ := hself
    obtain ⟨pkt, hqueue, hacc, hdropped, hdep, hsent⟩ := departure_cases h.refines hnext hstep
    refine ⟨hrefines, hdropped.trans h.lossless, ?_, ?_, fun p hp => ?_, fun hburst => ?_⟩
    · rw [hacc]
      exact h.sorted
    · rw [hacc]
      exact h.conforms
    · exact h.small p (by rw [hqueue]; exact List.mem_cons_of_mem _ hp)
    · -- what it leaves behind is at most a burst
      have hwait := (h.waiting_le hr).trans hburst
      rw [hsent, hdep, h.unmarked hburst, List.map_append, applyEcnMark,
        if_neg (Nat.not_lt.mpr hwait)]
      rfl
  · have hsame := comp_of_idle (fun others l ha hnext => hself ⟨others, l, ha, hnext⟩)
      (fun pkt ha => harrive ⟨pkt, ha⟩) hstep
    refine ⟨hrefines, ?_, ?_, ?_, ?_, ?_⟩
    all_goals rw [hsame]
    · exact h.lossless
    · exact h.sorted
    · exact h.conforms
    · exact h.small
    · exact h.unmarked

/-! ## The bounds -/

/-- Each arrival and the departure that is scheduled for it. -/
theorem scheduled_in_time {ps D i : Nat} {acc : List (Nat × Packet)} {x y : Nat × Packet}
    (h : Conforms ps D (jobs acc)) (hx : acc[i]? = some x)
    (hy : (departures ps 0 acc)[i]? = some y) : y.2 = x.2 ∧ x.1 ≤ y.1 ∧ y.1 ≤ x.1 + D := by
  have hdelay := delayed_departures h
  rw [Delayed, jobs, jobs, List.forall₂_map_left_iff, List.forall₂_map_right_iff] at hdelay
  obtain ⟨hi, hxi⟩ := List.getElem?_eq_some_iff.mp hx
  obtain ⟨hj, hyj⟩ := List.getElem?_eq_some_iff.mp hy
  have hpair := hdelay.get hi hj
  rw [List.get_eq_getElem, List.get_eq_getElem, hxi, hyj] at hpair
  refine ⟨?_, hpair.2⟩
  have hsnd := congrArg (fun l => l[i]?) (departures_snd ps 0 acc)
  simp only [List.getElem?_map, hx, hy, Option.map_some, Option.some.injEq] at hsnd
  exact hsnd

/-- What shaped arrivals get from the queue. -/
structure Guaranteed (cfg : QueueCfg) (r burst L : Nat) (s : Component.State FifoQueue) : Prop where
  serves : Serves cfg s
  lossless : s.comp.dropped = []
  bytes_le : s.comp.bytes ≤ burst + L
  in_time : ∀ (i : Nat) (x y : Nat × Packet),
    s.comp.accepted[i]? = some x → s.comp.departed[i]? = some y →
      y.2 = x.2 ∧ x.1 ≤ y.1 ∧ y.1 ≤ x.1 + burst * cfg.psPerByte
  waits : ∀ (i : Nat) (x : Nat × Packet), s.comp.accepted[i]? = some x →
    s.comp.departed.length ≤ i → s.list.now ≤ x.1 + burst * cfg.psPerByte
  output : Conforms r (burst * r + burst * cfg.psPerByte) (jobs s.comp.departed)
  unmarked : burst ≤ dctcpThreshold cfg.bitrate → s.comp.sentOn = s.comp.departed.map Prod.snd

theorem guaranteed_of_calm (hr : cfg.psPerByte ≤ r) (h : Calm cfg r burst L s d) :
    Guaranteed cfg r burst L s := by
  have hown := conforms_own h.sorted hr h.conforms
  have hsched : departures cfg.psPerByte 0 s.comp.accepted = s.comp.departed ++ d.line := by
    rw [← h.refines.entered, ← h.refines.left]
    rfl
  refine ⟨serves_of_refines h.refines, h.lossless, h.bytes_le hr, fun i x y hx hy => ?_,
    fun i x hx hi => ?_, ?_, h.unmarked⟩
  · refine scheduled_in_time hown hx ?_
    rw [hsched, List.getElem?_append_left (List.getElem?_eq_some_iff.mp hy).1]
    exact hy
  · -- its departure is scheduled in the line, which is not in the past
    obtain ⟨hlen, -⟩ := List.getElem?_eq_some_iff.mp hx
    have hlen' : i < (departures cfg.psPerByte 0 s.comp.accepted).length := by
      have hsnd := congrArg List.length (departures_snd cfg.psPerByte 0 s.comp.accepted)
      rw [List.length_map, List.length_map] at hsnd
      omega
    obtain ⟨y, hy⟩ : ∃ y, (departures cfg.psPerByte 0 s.comp.accepted)[i]? = some y :=
      ⟨_, List.getElem?_eq_getElem hlen'⟩
    obtain ⟨-, -, hle⟩ := scheduled_in_time hown hx hy
    refine le_trans ?_ hle
    rw [← h.refines.follows.now]
    refine h.refines.follows.ok.future _ ?_
    rw [hsched, List.getElem?_append_right hi] at hy
    exact List.mem_of_getElem? hy
  · have hall := h.conforms.delayed (delayed_departures hown)
    rw [hsched, jobs_append] at hall
    exact hall.of_infix (List.prefix_append _ _).isInfix

/-- For every rate up to that of the queue, and every burst with room. -/
theorem shaped_served (hr : cfg.psPerByte ≤ r) (hroom : burst + L ≤ cfg.maxsize)
    (hwide : L * cfg.psPerByte < 2 ^ 64) {as : List Component.Act}
    (hshaped : (component cfg).system.Along (Shaped r (burst * r) L) start as) :
    (component cfg).system.Always (Guaranteed cfg r burst L) start as :=
  Lts.always_of_along (I := fun s => ∃ d, Calm cfg r burst L s d)
    (fun _ _ _ ⟨_, h⟩ hs hstep => calm_step hr hroom hwide h hs hstep)
    (fun _ ⟨_, h⟩ => guaranteed_of_calm hr h) ⟨_, calm_start cfg r burst L⟩ hshaped

/-- Ten gigabits in a second, with room for four packets of the size of a frame. -/
def tenGigLink : QueueCfg where
  bitrate := 10000000000
  maxsize := 6000
  bitrate_pos := by decide
  bitrate_le := by decide
  maxsize_lt := by decide

/-- Two packets at once, and a third when they are gone. -/
def pairAndOne : List Component.Act :=
  [.arrive { flow := 0, size := 1500, id := 0 }, .arrive { flow := 1, size := 1500, id := 1 },
    .register 7 2400000, .dispatch [], .dispatch [], .dispatch [],
    .arrive { flow := 0, size := 1500, id := 2 }, .dispatch []]

theorem shaped_pairAndOne :
    (component tenGigLink).system.Along (Shaped 800 (3000 * 800) 1500) start pairAndOne := by
  decide +kernel

/-- The three packets leave after 1.2, 2.4 and 3.6 microseconds. -/
theorem shaped_served_pairAndOne :
    (component tenGigLink).system.Always (Guaranteed tenGigLink 800 3000 1500) start pairAndOne :=
  shaped_served (by decide) (by decide) (by decide) shaped_pairAndOne

/-! ## Busy periods -/

theorem departures_take (ps d n : Nat) (acc : List (Nat × Packet)) :
    (departures ps d acc).take n = departures ps d (acc.take n) := by
  induction acc generalizing d n with
  | nil => simp [departures]
  | cons x rest ih =>
    obtain ⟨a, pkt⟩ := x
    cases n with
    | zero => rfl
    | succ n => rw [departures, List.take_succ_cons, List.take_succ_cons, departures, ih]

theorem volume_departures (ps d : Nat) (acc : List (Nat × Packet)) :
    volume (jobs (departures ps d acc)) = volume (jobs acc) := by
  have hsnd := congrArg (List.map Packet.size) (departures_snd ps d acc)
  rw [List.map_map, List.map_map] at hsnd
  rw [volume, volume, jobs, jobs, List.map_map, List.map_map]
  exact congrArg List.sum hsnd

/-- What is sent after a packet takes at least its time on the link. -/
theorem paced_departures {ps d : Nat} {acc before mid after : List (Nat × Packet)}
    {x : Nat × Packet} (h : departures ps d acc = before ++ x :: (mid ++ after)) :
    x.1 + volume (jobs mid) * ps ≤ lastTime x.1 mid := by
  obtain ⟨-, -, post, -, -, -, hpost⟩ := departures_split h
  have hmid : departures ps x.1 (post.take mid.length) = mid := by
    rw [← departures_take, hpost, List.take_left']
    rfl
  rw [← hmid, lastTime_departures, volume_departures]
  exact Lindley.add_volume_le_finish _ _ _

/-- The last departure ends a busy period. -/
theorem busy_departures (ps : Nat) {acc : List (Nat × Packet)} (hne : acc ≠ []) :
    ∃ pre x rest, acc = pre ++ x :: rest ∧ lastTime 0 (departures ps 0 pre) ≤ x.1 ∧
      lastTime 0 (departures ps 0 acc) = x.1 + volume (jobs (x :: rest)) * ps := by
  obtain ⟨pre, j, rest, hsplit, hpre, hfin⟩ :=
    Lindley.finish_eq_busy ps (mt List.map_eq_nil_iff.mp hne : jobs acc ≠ [])
  rw [jobs, List.map_eq_append_iff] at hsplit
  obtain ⟨pre', tail, hacc, rfl, htail⟩ := hsplit
  rw [List.map_eq_cons_iff] at htail
  obtain ⟨x, rest', rfl, rfl, rfl⟩ := htail
  refine ⟨pre', x, rest', hacc, ?_, ?_⟩
  · rw [lastTime_departures]
    exact hpre
  · rw [lastTime_departures]
    exact hfin

/-- Every departure ends a busy period, as far as it has come. -/
theorem busy_departure {ps n : Nat} {acc : List (Nat × Packet)} {y : Nat × Packet}
    (h : (departures ps 0 acc)[n]? = some y) :
    ∃ k ≤ n, ∃ x, acc[k]? = some x ∧ lastTime 0 ((departures ps 0 acc).take k) ≤ x.1 ∧
      y.1 = x.1 + volume (jobs ((acc.take (n + 1)).drop k)) * ps := by
  obtain ⟨hlen, -⟩ := List.getElem?_eq_some_iff.mp h
  -- it is the last one of the schedule up to it
  have hy : lastTime 0 (departures ps 0 (acc.take (n + 1))) = y.1 := by
    rw [← departures_take, List.take_add_one, h, lastTime, List.foldl_append]
    rfl
  have hlen' : n < acc.length := by
    have hsnd := congrArg List.length (departures_snd ps 0 acc)
    rw [List.length_map, List.length_map] at hsnd
    omega
  have hne : acc.take (n + 1) ≠ [] := by
    intro hnil
    have hzero := congrArg List.length hnil
    rw [List.length_take, List.length_nil] at hzero
    omega
  obtain ⟨pre, x, rest, hacc, hpre, hfin⟩ := busy_departures ps hne
  have hk : pre.length ≤ n := by
    have hcount := congrArg List.length hacc
    rw [List.length_take, List.length_append, List.length_cons] at hcount
    omega
  refine ⟨pre.length, hk, x, ?_, ?_, ?_⟩
  · rw [← List.getElem?_take_of_lt (Nat.lt_succ_of_le hk), hacc,
      List.getElem?_append_right le_rfl, Nat.sub_self]
    rfl
  · have hprefix : acc.take pre.length = pre := by
      have htake := congrArg (List.take pre.length) hacc
      rwa [List.take_take, Nat.min_eq_left (hk.trans (Nat.le_succ n)), List.take_left' rfl] at htake
    rw [departures_take, hprefix]
    exact hpre
  · rw [← hy, hfin, hacc, List.drop_left' rfl]

/-- What the queue does with its link: after a packet it sends no more than the link carries in
    the time that passes; and each departure ends a stretch of services without a pause, which
    began with a packet that found everything before it gone. -/
structure UsesLink (cfg : QueueCfg) (s : Component.State FifoQueue) : Prop where
  rate : ∀ x mid, x :: mid <:+: s.comp.departed →
    x.1 + volume (jobs mid) * cfg.psPerByte ≤ lastTime x.1 mid
  busy : ∀ n y, s.comp.departed[n]? = some y → ∃ k ≤ n, ∃ x, s.comp.accepted[k]? = some x ∧
    (∀ z ∈ s.comp.departed.take k, z.1 ≤ x.1) ∧
    y.1 = x.1 + volume (jobs ((s.comp.accepted.take (n + 1)).drop k)) * cfg.psPerByte

theorem usesLink_of_refines (h : Refines cfg s d) : UsesLink cfg s := by
  have hsched : departures cfg.psPerByte 0 s.comp.accepted = s.comp.departed ++ d.line := by
    rw [← h.entered, ← h.left]
    rfl
  constructor
  · rintro x mid ⟨before, after, hdep⟩
    have hsplit : departures cfg.psPerByte 0 s.comp.accepted =
        before ++ x :: (mid ++ (after ++ d.line)) := by
      rw [hsched, ← hdep]
      simp
    exact paced_departures hsplit
  · intro n y hy
    obtain ⟨hlen, -⟩ := List.getElem?_eq_some_iff.mp hy
    have hget : (departures cfg.psPerByte 0 s.comp.accepted)[n]? = some y := by
      rw [hsched, List.getElem?_append_left hlen]
      exact hy
    obtain ⟨k, hk, x, hx, hfree, hend⟩ := busy_departure hget
    refine ⟨k, hk, x, hx, fun z hz => ?_, hend⟩
    rw [hsched, List.take_append_of_le_length (by omega)] at hfree
    refine (le_lastTime ?_ hz).trans hfree
    have hsorted := h.follows.ok.sorted
    rw [DueLine.entered, h.left] at hsorted
    exact (List.pairwise_append.mp hsorted).1.sublist (List.take_sublist k _)

/-- In every run in which nothing wraps. -/
theorem fits_usesLink {as : List Component.Act}
    (hfits : (component cfg).system.Along (Fits cfg) start as) :
    (component cfg).system.Always (UsesLink cfg) start as :=
  Lts.always_of_along (I := fun s => ∃ d, Refines cfg s d)
    (fun _ _ _ ⟨_, h⟩ hf hstep => refines_step h hf hstep)
    (fun _ ⟨_, h⟩ => usesLink_of_refines h) ⟨_, refines_start cfg⟩ hfits

/-- Nothing wraps on shaped arrivals. -/
theorem fits_of_shaped (hr : cfg.psPerByte ≤ r) (hroom : burst + L ≤ cfg.maxsize)
    (hwide : L * cfg.psPerByte < 2 ^ 64) {as : List Component.Act}
    (hshaped : (component cfg).system.Along (Shaped r (burst * r) L) start as) :
    (component cfg).system.Along (Fits cfg) start as :=
  Lts.along_of_along (I := fun s => ∃ d, Calm cfg r burst L s d)
    (fun _ _ _ ⟨_, h⟩ hs hstep =>
      ⟨calm_step hr hroom hwide h hs hstep, h.fits hr hroom hwide hs⟩)
    ⟨_, calm_start cfg r burst L⟩ hshaped

/-- The first two leave in one busy period, the third in one of its own. -/
theorem fits_usesLink_pairAndOne :
    (component tenGigLink).system.Always (UsesLink tenGigLink) start pairAndOne :=
  fits_usesLink (fits_of_shaped (r := 800) (by decide) (show 3000 + 1500 ≤ 6000 by decide)
    (by decide) shaped_pairAndOne)

end FifoQueue
end Htsim
end DatacenterNetworking
