/-
  DatacenterNetworking.Htsim.NetworkDelay

  How long a packet is in a network.  At a queue it stays for its service at least, and no
  longer than the queue needs to send all it has room for; a pipe keeps it for the delay.

  `life_of_reachable`: over its whole route a packet takes at least what an empty network
  takes and at most what one of full queues does.  So a packet that is older has come to
  the host at the end, or was dropped.
-/

import DatacenterNetworking.Htsim.NetworkView

namespace DatacenterNetworking
namespace Htsim

/-! ## The queue -/

namespace FifoQueue

open Lindley (finish volume)

variable {cfg : QueueCfg} {s t : Component.State FifoQueue} {d : DueLine Packet}

/-- All that is in the queue is sent without a pause. -/
theorem lastTime_le_bytes (h : Refines cfg s d) :
    lastTime 0 (departures cfg.psPerByte 0 s.comp.accepted) ≤
      s.list.now + s.comp.bytes * cfg.psPerByte := by
  cases hline : d.line with
  | nil => exact (lastTime_le h hline).trans (Nat.le_add_right _ _)
  | cons e rest =>
    have hsched : departures cfg.psPerByte 0 s.comp.accepted = d.left ++ e :: rest := by
      rw [← h.entered, DueLine.entered, hline]
    obtain ⟨pre, a, post, hacc, hpre, he, hpost⟩ := departures_split hsched
    have hnow : s.list.now ≤ e.1 := now_le_of_line h hline
    -- the service of the first began when it had arrived and the one before it had left
    have ha : a ≤ s.list.now := h.arrived (a, e.2) (by rw [hacc]; simp)
    have hleft : finish cfg.psPerByte 0 (jobs pre) ≤ s.list.now := by
      rw [← lastTime_departures, hpre]
      rcases lastTime_mem 0 d.left with ⟨hzero, -⟩ | ⟨x, hx, hlast⟩
      · rw [hzero]
        exact Nat.zero_le _
      · rw [hlast, ← h.follows.now]
        exact h.follows.ok.past x hx
    have hfirst : e.1 ≤ s.list.now + e.2.size * cfg.psPerByte := by
      rw [he, jobs_append, Lindley.finish_append]
      exact Nat.add_le_add_right (Nat.max_le.mpr ⟨ha, hleft⟩) _
    have hall : finish cfg.psPerByte 0 (jobs s.comp.accepted) =
        e.1 + volume (jobs post) * cfg.psPerByte := by
      rw [hacc, show pre ++ (a, e.2) :: post = (pre ++ [(a, e.2)]) ++ post by simp, jobs_append,
        Lindley.finish_append, ← he]
      refine Lindley.finish_of_le fun x hx => ?_
      obtain ⟨y, hy, rfl⟩ := List.mem_map.mp hx
      exact (h.arrived y (by rw [hacc]; simp [hy])).trans hnow
    have hbytes : s.comp.bytes = e.2.size + volume (jobs post) := by
      rw [← volume_departures cfg.psPerByte e.1 post, hpost, bytes, h.line, hline, List.map_cons,
        List.map_cons, List.sum_cons, List.map_map, volume, jobs, List.map_map]
      rfl
    rw [lastTime_departures, hall, hbytes, Nat.add_mul]
    omega

/-- The bytes of the packets a queue has taken. -/
def intake (q : FifoQueue) : Nat := (q.accepted.map fun e => e.2.size).sum

/-- The bytes in a queue are among those it has taken. -/
theorem bytes_le_intake (h : Refines cfg s d) : s.comp.bytes ≤ s.comp.intake := by
  have hpackets : s.comp.accepted.map Prod.snd = d.left.map Prod.snd ++ s.comp.enqueued := by
    rw [← departures_snd cfg.psPerByte 0 s.comp.accepted, ← h.entered, DueLine.entered,
      List.map_append, h.line]
  have hsizes : s.comp.intake = ((s.comp.accepted.map Prod.snd).map Packet.size).sum := by
    rw [intake, List.map_map]
    rfl
  rw [hsizes, hpackets, List.map_append, List.sum_append]
  exact Nat.le_add_left _ _

/-- What a step does to the histories: a packet is dropped only if it does not fit. -/
theorem histories_of_step {a : Component.Act} (h : Refines cfg s d) (hfits : Fits cfg s a)
    (hstep : (component cfg).step s a = some t) :
    t.comp.accepted = s.comp.accepted ∧ (t.comp.dropped = s.comp.dropped ∨
        ∃ pkt, t.comp.dropped = s.comp.dropped ++ [(s.list.now, pkt)] ∧
          cfg.maxsize < s.comp.bytes + pkt.size) ∨
      ∃ pkt, t.comp.accepted = s.comp.accepted ++ [(s.list.now, pkt)] ∧
        s.comp.bytes + pkt.size ≤ cfg.maxsize ∧ t.comp.dropped = s.comp.dropped := by
  by_cases harrive : ∃ pkt, a = .arrive pkt
  · obtain ⟨pkt, rfl⟩ := harrive
    rcases arrive_cases hstep with ⟨hfull, rfl⟩ | ⟨hroom, l, -, rfl⟩
    · refine Or.inl ⟨rfl, Or.inr ⟨pkt, rfl, ?_⟩⟩
      rw [← h.size_eq]
      exact hfull.trans_le (Nat.mod_le _ _)
    · obtain ⟨hsum, -⟩ := hfits hroom
      rw [Nat.mod_eq_of_lt hsum, h.size_eq] at hroom
      exact Or.inr ⟨pkt, rfl, hroom, rfl⟩
  by_cases hself : ∃ others l, a = .dispatch others ∧ s.list.next = .event .self l
  · obtain ⟨others, l, rfl, hnext⟩ := hself
    obtain ⟨pkt, -, hacc, hdrop, -⟩ := departure_cases h hnext hstep
    exact Or.inl ⟨hacc, Or.inl hdrop⟩
  · have hsame := comp_of_idle (fun others l ha hnext => hself ⟨others, l, ha, hnext⟩)
      (fun pkt ha => harrive ⟨pkt, ha⟩) hstep
    rw [hsame]
    exact Or.inl ⟨rfl, Or.inl rfl⟩

/-- Every packet departs after its own service, and before `room` bytes are sent. -/
def Sojourn (cfg : QueueCfg) (room : Nat) (s : Component.State FifoQueue) : Prop :=
  List.Forall₂ (fun x y => y.2 = x.2 ∧ x.1 + x.2.size * cfg.psPerByte ≤ y.1 ∧
      y.1 ≤ x.1 + room * cfg.psPerByte)
    s.comp.accepted (departures cfg.psPerByte 0 s.comp.accepted)

theorem Sojourn.mono {room room' : Nat} (h : Sojourn cfg room s) (hroom : room ≤ room') :
    Sojourn cfg room' s := by
  refine h.imp fun x y hxy => ⟨hxy.1, hxy.2.1, hxy.2.2.trans ?_⟩
  exact Nat.add_le_add_left (Nat.mul_le_mul_right _ hroom) _

theorem Sojourn.same {room : Nat} (h : Sojourn cfg room s)
    (hacc : t.comp.accepted = s.comp.accepted) : Sojourn cfg room t := by
  rw [Sojourn, hacc]
  exact h

/-- The packet that is taken has no more than `room` bytes before it, its own included. -/
theorem Sojourn.append {room : Nat} {pkt : Packet} (hs : Sojourn cfg room s)
    (h : Refines cfg s d) (hacc : t.comp.accepted = s.comp.accepted ++ [(s.list.now, pkt)])
    (hroom : s.comp.bytes + pkt.size ≤ room) : Sojourn cfg room t := by
  rw [Sojourn, hacc, departures_append]
  refine List.rel_append hs (List.Forall₂.cons ⟨rfl, ?_, ?_⟩ List.Forall₂.nil)
  · exact Nat.add_le_add_right (Nat.le_max_left _ _) _
  · -- behind all that is in the queue
    have hlast := lastTime_le_bytes h
    have hmul := Nat.mul_le_mul_right cfg.psPerByte hroom
    rw [Nat.add_mul] at hmul
    have hmax := Nat.max_le.mpr ⟨Nat.le_add_right s.list.now _, hlast⟩
    show max s.list.now _ + pkt.size * cfg.psPerByte ≤ _
    omega

/-- No packet stays longer than it takes to send what fits, nor than it takes to send all that the
    queue has taken; and what was dropped did not fit with these. -/
structure Kept (cfg : QueueCfg) (s : Component.State FifoQueue) : Prop where
  full : Sojourn cfg cfg.maxsize s
  all : Sojourn cfg s.comp.intake s
  spilled : ∀ x ∈ s.comp.dropped, cfg.maxsize < s.comp.intake + x.2.size

theorem kept_start (cfg : QueueCfg) : Kept cfg start where
  full := List.Forall₂.nil
  all := List.Forall₂.nil
  spilled := fun _ hx => absurd hx List.not_mem_nil

theorem kept_step {a : Component.Act} (h : Refines cfg s d) (hfits : Fits cfg s a)
    (hs : Kept cfg s) (hstep : (component cfg).step s a = some t) : Kept cfg t := by
  have hbytes := bytes_le_intake h
  rcases histories_of_step h hfits hstep with ⟨hacc, hdrop⟩ | ⟨pkt, hacc, hroom, hdrop⟩
  · have hintake : t.comp.intake = s.comp.intake := by rw [intake, intake, hacc]
    refine ⟨hs.full.same hacc, ?_, fun x hx => ?_⟩
    · rw [hintake]
      exact hs.all.same hacc
    · rw [hintake]
      rcases hdrop with hsame | ⟨pkt, happ, hover⟩
      · exact hs.spilled x (hsame ▸ hx)
      · rw [happ] at hx
        rcases List.mem_append.mp hx with hold | hnew
        · exact hs.spilled x hold
        · rw [List.mem_singleton.mp hnew]
          exact hover.trans_le (Nat.add_le_add_right hbytes _)
  · have hintake : t.comp.intake = s.comp.intake + pkt.size := by
      rw [intake, intake, hacc, List.map_append, List.sum_append, List.map_singleton,
        List.sum_singleton]
    refine ⟨hs.full.append h hacc hroom, ?_, fun x hx => ?_⟩
    · rw [hintake]
      exact (hs.all.mono (Nat.le_add_right _ _)).append h hacc (Nat.add_le_add_right hbytes _)
    · rw [hdrop] at hx
      have hover := hs.spilled x hx
      omega

end FifoQueue

/-! ## One element -/

namespace Kind

/-- The time a packet is in an element at least. -/
def least : Kind → Nat → Nat
  | .queue cfg, size => size * cfg.psPerByte
  | .pipe delay, _ => delay.toNat
  | .host, _ => 0

/-- The time a packet is in an element at most, if a queue gets no more than `room` bytes. -/
def stay : Kind → Nat → Nat
  | .queue cfg, room => room * cfg.psPerByte
  | .pipe delay, _ => delay.toNat
  | .host, _ => 0

/-- The time a packet is in an element at most, with a queue as full as it can be. -/
def most : Kind → Nat
  | .queue cfg => cfg.maxsize * cfg.psPerByte
  | .pipe delay => delay.toNat
  | .host => 0

theorem least_of_host {k : Kind} (h : k.isHost) (size : Nat) : k.least size = 0 := by
  cases k with
  | queue cfg => cases h
  | pipe delay => cases h
  | host => rfl

theorem most_of_host {k : Kind} (h : k.isHost) : k.most = 0 := by
  cases k with
  | queue cfg => cases h
  | pipe delay => cases h
  | host => rfl

/-- The bytes of the packets an element has taken. -/
def intake (k : Kind) (x : k.State) : Nat := ((k.entered x).map fun e => e.2.size).sum

/-- The element has its packets in a line, each due within `longest`. -/
def Timely (k : Kind) (longest : Nat) (c : Component.State k.State) : Prop :=
  ∃ d : DueLine Packet, Follows c.list d ∧ k.packets c.comp = d.line.map Prod.snd ∧
    ∀ y ∈ d.line, ∃ a, (a, y.2) ∈ k.entered c.comp ∧
      a + k.least y.2.size ≤ y.1 ∧ y.1 ≤ a + longest

theorem Timely.mono {k : Kind} {c : Component.State k.State} {longest longest' : Nat}
    (h : k.Timely longest c) (hle : longest ≤ longest') : k.Timely longest' c := by
  obtain ⟨d, hfollows, hline, htimes⟩ := h
  refine ⟨d, hfollows, hline, fun y hy => ?_⟩
  obtain ⟨a, ha, hleast, hmost⟩ := htimes y hy
  exact ⟨a, ha, hleast, hmost.trans (Nat.add_le_add_left hle a)⟩

end Kind

namespace Network

variable {T : Topology}

theorem kept_of_run {cfg : QueueCfg} {c : Component.State FifoQueue} {bs : List Component.Act}
    (hmtu : cfg.maxsize + T.mtu < 2 ^ 64 ∧ T.mtu * cfg.psPerByte < 2 ^ 64)
    (hbs : ∀ b ∈ bs, Small T b)
    (h : (FifoQueue.component cfg).system.run FifoQueue.start bs = some c) :
    QueueOk T cfg c ∧ FifoQueue.Kept cfg c := by
  refine Lts.run_induction_along (I := fun c => QueueOk T cfg c ∧ FifoQueue.Kept cfg c)
    (G := fun _ a => Small T a) (fun _ _ _ hok ha hstep => ⟨queueOk_step hmtu hok.1 ha hstep, ?_⟩)
    ⟨⟨⟨_, FifoQueue.refines_start cfg⟩, fun _ hp => absurd hp List.not_mem_nil⟩,
      FifoQueue.kept_start cfg⟩ (Lts.along_of_forall_mem hbs) h
  obtain ⟨hqueue, hs⟩ := hok
  have hfits := hqueue.fits hmtu ha
  obtain ⟨⟨d, hd⟩, -⟩ := hqueue
  exact FifoQueue.kept_step hd hfits hs hstep

/-- The times in a queue are those of its line. -/
theorem timely_of_sojourn {cfg : QueueCfg} {c : Component.State FifoQueue} {d : DueLine Packet}
    {room : Nat} (hd : FifoQueue.Refines cfg c d) (hs : FifoQueue.Sojourn cfg room c) :
    (Kind.queue cfg).Timely (room * cfg.psPerByte) c := by
  refine ⟨d, hd.follows, hd.line, fun y hy => ?_⟩
  have hy' : y ∈ FifoQueue.departures cfg.psPerByte 0 c.comp.accepted := by
    rw [← hd.entered]
    exact List.mem_append_right _ hy
  -- the arrival with this departure
  obtain ⟨n, hn, hget⟩ := List.getElem_of_mem hy'
  have hlen := hs.length_eq
  have hpair := hs.get (hlen ▸ hn) hn
  rw [show (FifoQueue.departures cfg.psPerByte 0 c.comp.accepted).get ⟨n, hn⟩ = y from hget]
    at hpair
  obtain ⟨hsnd, hleast, hmost⟩ := hpair
  refine ⟨_, ?_, ?_, hmost⟩
  · rw [hsnd]
    exact List.get_mem _ _
  · rw [hsnd]
    exact hleast

/-- In every run of an element: the times are those of a full queue, and of one that has got what
    it has. -/
theorem timely_of_run {k : Kind} {c : Component.State k.State} {bs : List Component.Act}
    (hk : ¬ k.isHost)
    (hmtu : ∀ cfg, k = .queue cfg →
      cfg.maxsize + T.mtu < 2 ^ 64 ∧ T.mtu * cfg.psPerByte < 2 ^ 64)
    (hbs : ∀ b ∈ bs, Small T b)
    (h : k.component.system.run ⟨EventList.get, k.new⟩ bs = some c) :
    k.Timely k.most c ∧ k.Timely (k.stay (k.intake c.comp)) c := by
  cases k with
  | queue cfg =>
    obtain ⟨⟨⟨d, hd⟩, -⟩, hs⟩ := kept_of_run (hmtu cfg rfl) hbs h
    exact ⟨timely_of_sojourn hd hs.full, timely_of_sojourn hd hs.all⟩
  | pipe delay =>
    obtain ⟨d, hd⟩ := pipeOk_of_run h
    have hdelay : (Kind.pipe delay).Timely delay.toNat c := by
      refine ⟨d, hd.follows, ?_, fun y hy => ?_⟩
      · show (Pipe.inflight c.comp).map Prod.snd = _
        rw [hd.inflight, List.map_map]
        rfl
      · have hy' : y ∈ d.entered := List.mem_append_right _ hy
        rw [hd.entered] at hy'
        obtain ⟨x, hx, rfl⟩ := List.mem_map.mp hy'
        exact ⟨x.1, hx, le_rfl, le_rfl⟩
    exact ⟨hdelay, hdelay⟩
  | host => exact absurd rfl hk

/-! ## Over a route -/

/-- The time over these hops at least, for a packet of this size. -/
def leastOver (T : Topology) (size : Nat) (hops : List Nat) : Nat :=
  (hops.map fun i => (T.kind i).least size).sum

/-- The time over these hops at most, if element `i` keeps a packet no longer than `longest i`. -/
def longestOver (longest : Nat → Nat) (hops : List Nat) : Nat := (hops.map longest).sum

/-- The time over these hops at most, with queues as full as they can be. -/
def mostOver (T : Topology) (hops : List Nat) : Nat := (hops.map fun i => (T.kind i).most).sum

theorem leastOver_take_succ (size : Nat) {k i : Nat} {hops : List Nat} (hi : hops[k]? = some i) :
    leastOver T size (hops.take (k + 1)) =
      leastOver T size (hops.take k) + (T.kind i).least size := by
  rw [leastOver, leastOver, List.take_add_one, hi]
  simp

theorem longestOver_take_succ {longest : Nat → Nat} {k i : Nat} {hops : List Nat}
    (hi : hops[k]? = some i) :
    longestOver longest (hops.take (k + 1)) = longestOver longest (hops.take k) + longest i := by
  rw [longestOver, longestOver, List.take_add_one, hi]
  simp

theorem longestOver_take_le (longest : Nat → Nat) (hops : List Nat) (k : Nat) :
    longestOver longest (hops.take k) ≤ longestOver longest hops := by
  have hsplit : longestOver longest hops =
      longestOver longest (hops.take k) + longestOver longest (hops.drop k) := by
    rw [longestOver, longestOver, longestOver, ← List.sum_append, ← List.map_append,
      List.take_append_drop]
  omega

variable {longest : Nat → Nat}

/-- A packet that was made as `e` has come over its first `k` hops at `time`. -/
structure OnTime (longest : Nat → Nat) (e : Traveller T) (k time : Nat) : Prop where
  least : e.time + leastOver T e.size (e.route.hops.take k) ≤ time
  most : time ≤ e.time + longestOver longest (e.route.hops.take k)

/-- Every packet came to the hops it has passed on time, and so does one that is sent on. -/
structure InTime (longest : Nat → Nat) (fly : Option Packet) (s : Network T) : Prop where
  reached : ∀ i, ∀ x ∈ s.enteredAt i, ∃ e k, s.sent[x.2.id]? = some e ∧ e.size = x.2.size ∧
    e.route.hops[k]? = some i ∧ OnTime longest e k x.1
  flying : ∀ pkt ∈ fly, ∃ e, s.sent[pkt.id]? = some e ∧ e.size = pkt.size ∧
    OnTime longest e e.nexthop s.list.now

theorem inTime_start (longest : Nat → Nat) (T : Topology) : InTime longest none (start T) where
  reached := fun i x hx => by
    simp [enteredAt, start] at hx
  flying := fun pkt hp => by cases hp

theorem inTime_newpkt {s : Network T} {route : Route T} {flow size : Nat}
    (h : InTime longest none s) :
    InTime longest (some { flow := flow, size := size, id := s.sent.length })
      (s.newpkt route size) where
  reached := fun i x hx => by
    obtain ⟨e, k, he, hrest⟩ := h.reached i x hx
    exact ⟨e, k, sent_newpkt_of_some he, hrest⟩
  flying := fun pkt hp => by
    cases hp
    exact ⟨_, sent_newpkt_self s route size, rfl, le_rfl, le_rfl⟩

/-- A packet that leaves an element was there for the time it may be. -/
theorem inTime_event {s : Network T} {i : Nat} {l : EventList Nat}
    {r : (T.kind i).State × List Nat} (hplace : InPlace none s)
    (htimely : ¬ (T.kind i).isHost → (T.kind i).Timely (longest i) (seen i s))
    (hnext : s.list.next = .event i l)
    (hr : (T.kind i).component.doNextEvent l.now (s.elems i) = some r)
    (h : InTime longest none s) :
    InTime longest ((T.kind i).sends (s.elems i)) (s.withElem l i r.1) := by
  have hentered : ∀ j, (s.withElem l i r.1).enteredAt j = s.enteredAt j := fun j => by
    obtain ⟨hsame, -⟩ := Kind.event_spec hr
    by_cases hj : j = i
    · subst hj
      simp only [enteredAt, withElem, Function.update_self, hsame]
    · simp only [enteredAt, withElem, Function.update_of_ne hj]
  refine ⟨fun j x hx => h.reached j x (by rw [← hentered]; exact hx), fun pkt hsends => ?_⟩
  have hhost := Kind.not_host_of_sends hsends
  obtain ⟨p, rest, hpk, hid, hsize⟩ := Kind.head_of_sends hsends
  obtain ⟨e, k, he, hesize, hk, hi⟩ := hplace.entry (show p ∈ s.packetsAt i by
    rw [packetsAt, hpk]
    exact List.mem_cons_self)
  -- it is the front of the line, and due now
  obtain ⟨d, hfollows, hline, htimes⟩ := htimely hhost
  have hview : (seen i s).list.next = .event .self (l.view i) := by
    have hmap := EventList.next_mapSrc_event (f := EventList.seenBy i) hnext
    rw [EventList.seenBy_self] at hmap
    exact hmap
  obtain ⟨-, -, q, tail, hfront⟩ := front_of_self hfollows hview
  have hq : q = p := by
    have hpackets : (T.kind i).packets (seen i s).comp = p :: rest := hpk
    rw [hline, hfront] at hpackets
    exact (List.cons.inj hpackets).1
  obtain ⟨a, ha, hleast, hmost⟩ := htimes _ (by rw [hfront]; exact List.mem_cons_self)
  simp only [EventList.now_view, hq] at ha hleast hmost
  obtain ⟨e', k', he', -, hi', hon⟩ := h.reached i (a, p) ha
  rw [he] at he'
  cases he'
  have hsame : k' = k := by
    obtain ⟨hlt, hget⟩ := List.getElem?_eq_some_iff.mp hi
    obtain ⟨hlt', hget'⟩ := List.getElem?_eq_some_iff.mp hi'
    exact (List.Nodup.getElem_inj_iff e.route.nodup).mp (hget'.trans hget.symm)
  subst hsame
  refine ⟨e, by rw [← hid]; exact he, hesize.trans hsize, ?_, ?_⟩
  · show _ ≤ l.now
    rw [hk, leastOver_take_succ e.size hi, hesize]
    have hbefore := hon.least
    rw [hesize] at hbefore
    omega
  · show l.now ≤ _
    rw [hk, longestOver_take_succ hi]
    have hbefore := hon.most
    omega

theorem inTime_sendOn {s t : Network T} {pkt : Packet} (h : InTime longest (some pkt) s)
    (hsend : s.sendOn pkt = some t) : InTime longest none t := by
  obtain ⟨e, i, he, hi, hhand⟩ := sendOn_spec hsend
  obtain ⟨hsent, -, hother, -, hcases⟩ := hand_spec hhand
  -- the entries keep all but the next hop
  have hkeep : ∀ {n k time : Nat} {e' : Traveller T}, s.sent[n]? = some e' →
      OnTime longest e' k time →
      ∃ e'' : Traveller T, t.sent[n]? = some e'' ∧ e''.size = e'.size ∧
        e''.route.hops = e'.route.hops ∧ OnTime longest e'' k time := by
    intro n k time e' he' hon
    rw [hsent]
    by_cases hn : pkt.id = n
    · subst hn
      rw [he] at he'
      cases he'
      exact ⟨_, sent_advance_self he, rfl, rfl, hon.least, hon.most⟩
    · exact ⟨e', (sent_advance_of_ne hn).trans he', rfl, rfl, hon⟩
  have hold : ∀ j, ∀ x ∈ s.enteredAt j, ∃ e k, t.sent[x.2.id]? = some e ∧ e.size = x.2.size ∧
      e.route.hops[k]? = some j ∧ OnTime longest e k x.1 := by
    intro j x hx
    obtain ⟨e', k, he', hsize, hj, hon⟩ := h.reached j x hx
    obtain ⟨e'', he'', hsize', hhops, hon'⟩ := hkeep he' hon
    exact ⟨e'', k, he'', hsize'.trans hsize, by rw [hhops]; exact hj, hon'⟩
  refine ⟨fun j x hx => ?_, fun p hp => by cases hp⟩
  by_cases hj : j = i
  · subst hj
    rcases hcases with ⟨-, hen, -⟩ | ⟨-, hen, -⟩
    · rw [hen] at hx
      rcases List.mem_append.mp hx with hx | hnew
      · exact hold j x hx
      · obtain ⟨e', he', hsize, hon⟩ := h.flying pkt rfl
        rw [he] at he'
        cases he'
        obtain ⟨e'', he'', hsize', hhops, hon'⟩ := hkeep he hon
        rw [List.mem_singleton.mp hnew]
        exact ⟨e'', e.nexthop, he'', hsize'.trans hsize, by rw [hhops]; exact hi, hon'⟩
    · rw [hen] at hx
      exact hold j x hx
  · rw [enteredAt, hother j hj] at hx
    exact hold j x hx

/-! ### Steps -/

/-- Registrations do not change the time. -/
theorem inTime_list {s : Network T} {l : EventList Nat} (h : InTime longest none s) :
    InTime longest none { s with list := l } :=
  ⟨h.reached, fun _ hp => by cases hp⟩

theorem inTime_hostAct {s t : Network T} {a : HostAct T} (h : InTime longest none s)
    (hact : s.hostAct a = some t) : InTime longest none t := by
  cases a with
  | send route flow size =>
    simp only [hostAct] at hact
    split_ifs at hact
    exact inTime_sendOn (inTime_newpkt h) hact
  | timer host time =>
    simp only [hostAct] at hact
    split_ifs at hact
    obtain ⟨l, -, rfl⟩ := Option.map_eq_some_iff.mp hact
    exact inTime_list h

theorem inTime_emit {s t : Network T} {fly : Option Packet} (h : InTime longest fly s)
    (hemit : emit s fly = some t) : InTime longest none t := by
  cases fly with
  | none =>
    cases hemit
    exact h
  | some pkt => exact inTime_sendOn h hemit

theorem inTime_step {s t : Network T} {a : Act T} (hplace : InPlace none s)
    (htimely : ∀ i, ¬ (T.kind i).isHost → (T.kind i).Timely (longest i) (seen i s))
    (h : InTime longest none s) (hstep : s.step a = some t) : InTime longest none t := by
  cases a with
  | hosts acts => exact hostActs_induction (fun h ha => inTime_hostAct h ha) h hstep
  | dispatch acts =>
    obtain ⟨i, l, r, s₁, s₂, l', hnext, -, hr, h₁, h₂, -, rfl⟩ := dispatch_parts hstep
    have hemit := inTime_emit (inTime_event hplace (htimely i) hnext hr h) h₁
    exact inTime_list (hostActs_induction (fun h ha => inTime_hostAct h ha) hemit h₂)

/-- Every element is timely in every state, for a full queue and for what it has taken. -/
theorem timely_reachable {s : Network T} (h : (system T).Reachable (start T) s) {i : Nat}
    (hhost : ¬ (T.kind i).isHost) :
    (T.kind i).Timely (T.kind i).most (seen i s) ∧
      (T.kind i).Timely ((T.kind i).stay ((T.kind i).intake (s.elems i))) (seen i s) := by
  obtain ⟨bs, hbs, hrun⟩ := (projects_reachable h).runs i hhost
  exact timely_of_run hhost (fun cfg hc => T.fits hc) hbs hrun

/-- Packets are in time in a state that has only been preceded by states with timely elements. -/
theorem inTime_reachable {G : Network T → Prop}
    (hback : ∀ {s a t}, (system T).step s a = some t → G t → G s)
    (htimely : ∀ {s}, (system T).Reachable (start T) s → G s → ∀ i, ¬ (T.kind i).isHost →
      (T.kind i).Timely (longest i) (seen i s))
    {s : Network T} (h : (system T).Reachable (start T) s) (hs : G s) :
    InTime longest none s := by
  refine (h.invariant (I := fun s => (system T).Reachable (start T) s ∧
    (G s → InTime longest none s)) ⟨Lts.Reachable.refl _, fun _ => inTime_start longest T⟩
    fun s a t hs hstep => ⟨hs.1.tail hstep, fun ht => ?_⟩).2 hs
  have hbefore := hback hstep ht
  exact inTime_step (inPlace_reachable hs.1) (htimely hs.1 hbefore) (hs.2 hbefore) hstep

/-! ## The life of a packet -/

/-- A packet came to every hop in the time that the hops before it take, and to the host at the
    end in that of the whole route.  One that is on its way is not older than that, and an older
    one has come to the host or was dropped. -/
structure Life (s : Network T) : Prop where
  reached : ∀ i, ∀ x ∈ s.enteredAt i, ∃ e k, s.sent[x.2.id]? = some e ∧
    e.route.hops[k]? = some i ∧ e.time + leastOver T e.size (e.route.hops.take k) ≤ x.1 ∧
    x.1 ≤ e.time + mostOver T (e.route.hops.take k)
  delivered : ∀ i, (T.kind i).isHost → ∀ x ∈ s.enteredAt i, ∃ e, s.sent[x.2.id]? = some e ∧
    e.route.hops.getLast? = some i ∧
    e.time + leastOver T e.size e.route.hops ≤ x.1 ∧ x.1 ≤ e.time + mostOver T e.route.hops
  onTheWay : ∀ i, ¬ (T.kind i).isHost → ∀ p ∈ s.packetsAt i, ∃ e, s.sent[p.id]? = some e ∧
    s.list.now ≤ e.time + mostOver T e.route.hops
  old : ∀ n e, s.sent[n]? = some e → e.time + mostOver T e.route.hops < s.list.now →
    (∃ i, (T.kind i).isHost ∧ n ∈ (s.packetsAt i).map Packet.id) ∨
      ∃ i, n ∈ (s.lostAt i).map Packet.id

/-- A packet on its way is not older than its route takes. -/
theorem InTime.onTheWay {s : Network T} (hin : InTime longest none s) {i : Nat}
    (htimely : (T.kind i).Timely (longest i) (seen i s)) {p : Packet} (hpk : p ∈ s.packetsAt i) :
    ∃ e, s.sent[p.id]? = some e ∧ s.list.now ≤ e.time + longestOver longest e.route.hops := by
  -- it is in the line, and nothing there is overdue
  obtain ⟨d, hfollows, hline, htimes⟩ := htimely
  have hmem : p ∈ (T.kind i).packets (seen i s).comp := hpk
  rw [hline] at hmem
  obtain ⟨y, hy, rfl⟩ := List.mem_map.mp hmem
  have hfuture : d.now ≤ y.1 := hfollows.ok.future y hy
  rw [hfollows.now] at hfuture
  obtain ⟨a, ha, -, hmost⟩ := htimes y hy
  obtain ⟨e, k, he, -, hi, hon⟩ := hin.reached i (a, y.2) ha
  refine ⟨e, he, ?_⟩
  have hsum := @longestOver_take_succ longest _ _ _ hi
  have hle := longestOver_take_le longest e.route.hops (k + 1)
  have hbefore := hon.most
  have hnow : s.list.now ≤ y.1 := hfuture
  omega

/-- A packet came to the host at the end of its route in the time the route takes. -/
theorem InTime.delivered {s : Network T} (hin : InTime longest none s) {i : Nat}
    (hhost : (T.kind i).isHost) (hzero : longest i = 0) {x : Nat × Packet}
    (hx : x ∈ s.enteredAt i) : ∃ e, s.sent[x.2.id]? = some e ∧
      e.route.hops.getLast? = some i ∧ e.time + leastOver T e.size e.route.hops ≤ x.1 ∧
      x.1 ≤ e.time + longestOver longest e.route.hops := by
  obtain ⟨e, k, he, -, hi, hon⟩ := hin.reached i x hx
  have hlen := Route.length_of_host hi hhost
  have hwhole : e.route.hops.take (k + 1) = e.route.hops := by rw [← hlen, List.take_length]
  have hleast := leastOver_take_succ (T := T) e.size hi
  have hmost := @longestOver_take_succ longest _ _ _ hi
  rw [hwhole, Kind.least_of_host hhost] at hleast
  rw [hwhole, hzero] at hmost
  refine ⟨e, he, ?_, ?_, ?_⟩
  · rw [List.getLast?_eq_getElem?, hlen, Nat.add_sub_cancel]
    exact hi
  · rw [hleast]
    exact hon.least
  · rw [hmost]
    exact hon.most

theorem life_of_reachable {s : Network T} (h : (system T).Reachable (start T) s) : Life s := by
  have hin : InTime (fun i => (T.kind i).most) none s :=
    inTime_reachable (G := fun _ => True) (fun _ _ => trivial)
      (fun hs _ i hhost => (timely_reachable hs hhost).1) h trivial
  have hway : ∀ i, ¬ (T.kind i).isHost → ∀ p ∈ s.packetsAt i, ∃ e, s.sent[p.id]? = some e ∧
      s.list.now ≤ e.time + mostOver T e.route.hops :=
    fun i hhost p hpk => hin.onTheWay (timely_reachable h hhost).1 hpk
  have hreached : ∀ i, ∀ x ∈ s.enteredAt i, ∃ e k, s.sent[x.2.id]? = some e ∧
      e.route.hops[k]? = some i ∧ e.time + leastOver T e.size (e.route.hops.take k) ≤ x.1 ∧
      x.1 ≤ e.time + mostOver T (e.route.hops.take k) := by
    intro i x hx
    obtain ⟨e, k, he, -, hi, hon⟩ := hin.reached i x hx
    exact ⟨e, k, he, hi, hon.least, hon.most⟩
  refine ⟨hreached, fun i hhost x hx => hin.delivered hhost (Kind.most_of_host hhost) hx, hway,
    fun n e he hold => ?_⟩
  -- it is somewhere, and not on its way
  obtain ⟨e', k, i, he', -, -, hholds⟩ :=
    (inPlace_reachable h).placed.once n (List.getElem?_eq_some_iff.mp he).1
  have hone : s.holds n i = 1 := by rw [hholds i, if_pos rfl]
  by_cases hpk : n ∈ (s.packetsAt i).map Packet.id
  · refine Or.inl ⟨i, ?_, hpk⟩
    by_contra hhost
    obtain ⟨p, hmem, rfl⟩ := List.mem_map.mp hpk
    obtain ⟨e₁, he₁, hyoung⟩ := hway i hhost p hmem
    rw [he] at he₁
    cases he₁
    omega
  · refine Or.inr ⟨i, ?_⟩
    rw [holds, List.count_eq_zero.mpr hpk] at hone
    exact List.count_pos_iff.mp (by omega)

/-- The segments may take between 14.4 and 6975.2 microseconds. -/
theorem life_of_arrivedSegments : Life arrivedSegments :=
  life_of_reachable reachable_arrivedSegments

end Network
end Htsim
end DatacenterNetworking
