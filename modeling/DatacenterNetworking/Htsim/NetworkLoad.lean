/-
  DatacenterNetworking.Htsim.NetworkLoad

  A network that is not loaded.  A queue has to do with the packets only whose routes lead
  through it, and with each of them once (`Handed`).  So when these fit into it all
  together, it drops none of them (`no_loss`), and a packet waits for no longer than it
  takes to send them (`inTime_of_loads`).  With this every packet comes to the end of its
  route within a known time (`light_of_fits`).
-/

import DatacenterNetworking.Htsim.NetworkDelay
import DatacenterNetworking.Htsim.NetworkFlight
import DatacenterNetworking.Htsim.NetworkHost
import Mathlib.Algebra.Order.BigOperators.Group.List

namespace DatacenterNetworking
namespace Htsim

theorem Kind.stay_mono (k : Kind) {room room' : Nat} (h : room ≤ room') :
    k.stay room ≤ k.stay room' := by
  cases k with
  | queue cfg => exact Nat.mul_le_mul_right _ h
  | pipe delay => exact le_rfl
  | host => exact le_rfl

theorem Kind.stay_of_host {k : Kind} (h : k.isHost) (room : Nat) : k.stay room = 0 := by
  cases k with
  | queue cfg => cases h
  | pipe delay => cases h
  | host => rfl

namespace Network

variable {T : Topology} {s t u : Network T}

/-! ## The packets of an element -/

/-- The packets an element has taken and those it has dropped. -/
def handedAt (s : Network T) (i : Nat) : List Packet :=
  (s.enteredAt i).map Prod.snd ++ s.lostAt i

/-- A packet that was handed to an element has it among the hops behind it, and it was handed to it
    once. -/
structure Handed (s : Network T) : Prop where
  past : ∀ i, ∀ p ∈ s.handedAt i, ∃ e k, s.sent[p.id]? = some e ∧ e.size = p.size ∧
    k < e.nexthop ∧ e.route.hops[k]? = some i
  nodup : ∀ i, ((s.handedAt i).map Packet.id).Nodup

theorem handed_start (T : Topology) : Handed (start T) := by
  have hnone : ∀ i, (start T).handedAt i = [] := fun i => by
    simp [handedAt, enteredAt, lostAt, start]
  refine ⟨fun i p hp => ?_, fun i => ?_⟩
  · rw [hnone] at hp
    cases hp
  · rw [hnone]
    exact List.nodup_nil

/-- New packets, the event list, and elements with other packets have no part in it. -/
theorem Handed.congr (h : Handed s) (hsame : ∀ i, t.handedAt i = s.handedAt i)
    (hsent : ∀ (n : Nat) (e : Traveller T), s.sent[n]? = some e → t.sent[n]? = some e) :
    Handed t where
  past := fun i p hp => by
    rw [hsame] at hp
    obtain ⟨e, k, he, hrest⟩ := h.past i p hp
    exact ⟨e, k, hsent _ e he, hrest⟩
  nodup := fun i => by
    rw [hsame]
    exact h.nodup i

theorem handed_sendOn {pkt : Packet} (hplace : InPlace (some pkt) s) (h : Handed s)
    (hsend : s.sendOn pkt = some t) : Handed t := by
  obtain ⟨e, i, he, hi, hhand⟩ := sendOn_spec hsend
  obtain ⟨hsent, -, hother, -, hcases⟩ := hand_spec hhand
  have hself : t.sent[pkt.id]? = some { e with nexthop := e.nexthop + 1 } := by
    rw [hsent]
    exact sent_advance_self he
  -- the packet comes to the others of the element
  have hperm : (t.handedAt i).Perm (pkt :: s.handedAt i) := by
    rcases hcases with ⟨-, hen, hl⟩ | ⟨-, hen, hl⟩
    · rw [handedAt, hen, hl, List.map_append, List.append_assoc]
      exact List.perm_middle
    · rw [handedAt, hen, hl, ← List.append_assoc]
      exact List.perm_append_singleton _ _
  have hsame : ∀ j ≠ i, t.handedAt j = s.handedAt j := fun j hj => by
    rw [handedAt, handedAt, enteredAt, lostAt, hother j hj]
    rfl
  have hold : ∀ j, ∀ p ∈ s.handedAt j, ∃ e' k, t.sent[p.id]? = some e' ∧ e'.size = p.size ∧
      k < e'.nexthop ∧ e'.route.hops[k]? = some j := by
    intro j p hp
    obtain ⟨e', k, he', hsize, hk, hj⟩ := h.past j p hp
    by_cases hn : pkt.id = p.id
    · rw [← hn, he] at he'
      cases he'
      exact ⟨{ e with nexthop := e.nexthop + 1 }, k, hn ▸ hself, hsize,
        hk.trans (Nat.lt_succ_self _), hj⟩
    · refine ⟨e', k, ?_, hsize, hk, hj⟩
      rw [hsent]
      exact (sent_advance_of_ne hn).trans he'
  -- it was not handed to this element before, since its route comes there once
  have hnew : pkt.id ∉ (s.handedAt i).map Packet.id := by
    intro hmem
    obtain ⟨p, hp, hid⟩ := List.mem_map.mp hmem
    obtain ⟨e', k, he', -, hk, hki⟩ := h.past i p hp
    rw [hid, he] at he'
    cases he'
    obtain ⟨hlt, hget⟩ := List.getElem?_eq_some_iff.mp hki
    obtain ⟨hlt', hget'⟩ := List.getElem?_eq_some_iff.mp hi
    have heq := (List.Nodup.getElem_inj_iff e.route.nodup).mp (hget.trans hget'.symm)
    omega
  refine ⟨fun j p hp => ?_, fun j => ?_⟩
  · by_cases hj : j = i
    · subst hj
      rcases List.mem_cons.mp (hperm.mem_iff.mp hp) with rfl | hmem
      · obtain ⟨e', he', hsize⟩ := hplace.flySize p rfl
        rw [he] at he'
        cases he'
        exact ⟨_, e.nexthop, hself, hsize, Nat.lt_succ_self _, hi⟩
      · exact hold j p hmem
    · rw [hsame j hj] at hp
      exact hold j p hp
  · by_cases hj : j = i
    · subst hj
      rw [(hperm.map Packet.id).nodup_iff, List.map_cons, List.nodup_cons]
      exact ⟨hnew, h.nodup j⟩
    · rw [hsame j hj]
      exact h.nodup j

theorem handed_event {i now : Nat} {r : (T.kind i).State × List Nat} {l : EventList Nat}
    (hr : (T.kind i).component.doNextEvent now (s.elems i) = some r) (h : Handed s) :
    Handed (s.withElem l i r.1) := by
  obtain ⟨hentered, hlost, -⟩ := Kind.event_spec hr
  refine h.congr (fun j => ?_) fun n e he => he
  by_cases hj : j = i
  · subst hj
    simp only [handedAt, enteredAt, lostAt, withElem, Function.update_self, hentered, hlost]
  · simp only [handedAt, enteredAt, lostAt, withElem, Function.update_of_ne hj]

theorem handed_hostAct {a : HostAct T} (hplace : InPlace none s) (h : Handed s)
    (hact : s.hostAct a = some t) : Handed t := by
  cases a with
  | send route flow size =>
    simp only [hostAct] at hact
    split_ifs at hact with hsize
    exact handed_sendOn (inPlace_newpkt hplace hsize)
      (h.congr (fun _ => rfl) fun n e he => sent_newpkt_of_some he) hact
  | timer host time =>
    simp only [hostAct] at hact
    split_ifs at hact
    obtain ⟨l, -, rfl⟩ := Option.map_eq_some_iff.mp hact
    exact h.congr (fun _ => rfl) fun _ _ he => he

theorem handed_step {a : Act T} (hplace : InPlace none s) (h : Handed s)
    (hstep : s.step a = some t) : Handed t := by
  have hacts : ∀ {u v : Network T} {acts : List (HostAct T)}, InPlace none u → Handed u →
      u.hostActs acts = some v → Handed v := fun hu hh hv =>
    (hostActs_induction (I := fun v => InPlace none v ∧ Handed v)
      (fun hw ha => ⟨inPlace_hostAct hw.1 ha, handed_hostAct hw.1 hw.2 ha⟩) ⟨hu, hh⟩ hv).2
  cases a with
  | hosts acts => exact hacts hplace h hstep
  | dispatch acts =>
    obtain ⟨i, l, r, s₁, s₂, l', -, -, hr, h₁, h₂, -, rfl⟩ := dispatch_parts hstep
    have hfly := inPlace_event hr l hplace
    have hone : Handed s₁ := by
      cases hsends : (T.kind i).sends (s.elems i) with
      | none =>
        rw [hsends] at h₁
        cases h₁
        exact handed_event hr h
      | some pkt =>
        rw [hsends] at h₁ hfly
        exact handed_sendOn hfly (handed_event hr h) h₁
    exact (hacts (inPlace_emit hfly h₁) hone h₂).congr (fun _ => rfl) fun _ _ he => he

theorem handed_reachable (h : (system T).Reachable (start T) s) : Handed s :=
  (h.invariant (I := fun s => InPlace none s ∧ Handed s) ⟨inPlace_start T, handed_start T⟩
    fun _ _ _ hs hstep => ⟨inPlace_step hs.1 hstep, handed_step hs.1 hs.2 hstep⟩).2

/-! ## The load of an element -/

/-- The size of packet `n`, if its route leads through element `i`. -/
def sizeOver (s : Network T) (i n : Nat) : Nat :=
  ((s.origin n).map fun o => if i ∈ o.hops then o.size else 0).getD 0

/-- The bytes of all packets whose routes lead through element `i`. -/
def offered (s : Network T) (i : Nat) : Nat :=
  ((List.range s.sent.length).map (s.sizeOver i)).sum

/-- Different numbers up to a bound have no larger sum than all of them. -/
theorem sum_le_sum_range {f : Nat → Nat} {ids : List Nat} {len : Nat} (hnodup : ids.Nodup)
    (hlt : ∀ n ∈ ids, n < len) : (ids.map f).sum ≤ ((List.range len).map f).sum := by
  obtain ⟨l, hperm, hsub⟩ := List.subperm_of_subset hnodup
    (show ids ⊆ List.range len from fun n hn => List.mem_range.mpr (hlt n hn))
  rw [← (hperm.map f).sum_nat]
  exact (hsub.map f).sum_le_sum (fun _ _ => Nat.zero_le _)

/-- An element is handed no more than that. -/
theorem Handed.sum_le (h : Handed s) (i : Nat) :
    ((s.handedAt i).map Packet.size).sum ≤ s.offered i := by
  have hsizes : (s.handedAt i).map Packet.size =
      ((s.handedAt i).map Packet.id).map (s.sizeOver i) := by
    rw [List.map_map]
    refine List.map_congr_left fun p hp => ?_
    obtain ⟨e, k, he, hsize, -, hi⟩ := h.past i p hp
    simp only [Function.comp_apply, sizeOver, origin_of_sent he, Option.map_some,
      Option.getD_some, if_pos (List.mem_of_getElem? hi), hsize]
  rw [hsizes]
  refine sum_le_sum_range (h.nodup i) fun n hn => ?_
  obtain ⟨p, hp, rfl⟩ := List.mem_map.mp hn
  obtain ⟨e, k, he, -⟩ := h.past i p hp
  exact (List.getElem?_eq_some_iff.mp he).1

/-- What was offered stays so. -/
theorem Later.offered_le (h : Later s t) (i : Nat) : s.offered i ≤ t.offered i := by
  have hsame : (List.range s.sent.length).map (s.sizeOver i) =
      (List.range s.sent.length).map (t.sizeOver i) :=
    List.map_congr_left fun n hn => by
      rw [sizeOver, sizeOver, h.origin n (List.mem_range.mp hn)]
  obtain ⟨k, hk⟩ := Nat.exists_eq_add_of_le h.length
  rw [offered, offered, hsame, hk, List.range_add, List.map_append, List.sum_append]
  exact Nat.le_add_right _ _

theorem intake_le_offered (h : (system T).Reachable (start T) s) (i : Nat) :
    (T.kind i).intake (s.elems i) ≤ s.offered i := by
  refine le_trans ?_ ((handed_reachable h).sum_le i)
  rw [handedAt, List.map_append, List.sum_append, List.map_map]
  exact Nat.le_add_right _ _

/-! ## Queues that have room for all -/

/-- In every run of a queue: what was dropped did not fit with what was taken. -/
theorem spilled_of_run {k : Kind} {c : Component.State k.State} {bs : List Component.Act}
    (hmtu : ∀ cfg, k = .queue cfg →
      cfg.maxsize + T.mtu < 2 ^ 64 ∧ T.mtu * cfg.psPerByte < 2 ^ 64)
    (hbs : ∀ b ∈ bs, Small T b)
    (h : k.component.system.run ⟨EventList.get, k.new⟩ bs = some c) :
    ∀ p ∈ k.lost c.comp, ∃ cfg, k = .queue cfg ∧ cfg.maxsize < k.intake c.comp + p.size := by
  cases k with
  | queue cfg =>
    obtain ⟨-, hs⟩ := kept_of_run (hmtu cfg rfl) hbs h
    intro p hp
    obtain ⟨x, hx, rfl⟩ := List.mem_map.mp hp
    exact ⟨cfg, rfl, hs.spilled x hx⟩
  | pipe delay => exact fun p hp => absurd hp List.not_mem_nil
  | host => exact fun p hp => absurd hp List.not_mem_nil

/-- A queue with room for all packets whose routes lead through it drops none. -/
theorem no_loss (h : (system T).Reachable (start T) s) {i : Nat}
    (hfits : ∀ cfg, T.kind i = .queue cfg → s.offered i ≤ cfg.maxsize) : s.lostAt i = [] := by
  by_cases hhost : (T.kind i).isHost
  · exact Kind.lost_of_host hhost _
  obtain ⟨bs, hbs, hrun⟩ := (projects_reachable h).runs i hhost
  refine List.eq_nil_iff_forall_not_mem.mpr fun p hp => ?_
  obtain ⟨cfg, hcfg, hover⟩ := spilled_of_run (fun cfg hc => T.fits hc) hbs hrun p hp
  have hsum := (handed_reachable h).sum_le i
  have hone : p.size ≤ ((s.lostAt i).map Packet.size).sum :=
    List.le_sum_of_mem (List.mem_map_of_mem hp)
  rw [handedAt, List.map_append, List.sum_append, List.map_map] at hsum
  have hintake : (T.kind i).intake (s.elems i) =
      ((s.enteredAt i).map (Packet.size ∘ Prod.snd)).sum := rfl
  have hroom := hfits cfg hcfg
  have hover' : cfg.maxsize < (T.kind i).intake (s.elems i) + p.size := hover
  omega

/-- The bytes that may be offered to each element, and are not exceeded. -/
def Within (room : Nat → Nat) (s : Network T) : Prop := ∀ i, s.offered i ≤ room i

/-- How long a packet stays in element `i`. -/
def stayAt (T : Topology) (room : Nat → Nat) (i : Nat) : Nat := (T.kind i).stay (room i)

theorem timely_of_loads {room : Nat → Nat} (h : (system T).Reachable (start T) s)
    (hs : Within room s) {i : Nat} (hhost : ¬ (T.kind i).isHost) :
    (T.kind i).Timely (stayAt T room i) (seen i s) :=
  (timely_reachable h hhost).2.mono
    (Kind.stay_mono _ ((intake_le_offered h i).trans (hs i)))

/-- Packets do not stay longer. -/
theorem inTime_of_loads {room : Nat → Nat} (h : (system T).Reachable (start T) s)
    (hs : Within room s) : InTime (stayAt T room) none s :=
  inTime_reachable (G := Within room)
    (fun hstep ht i => ((later_step hstep).offered_le i).trans (ht i))
    (fun hreach hs _ hhost => timely_of_loads hreach hs hhost) h hs

/-! ## The next event -/

/-- The next event is not later than the time a packet that is on its way needs. -/
theorem InTime.next_le {longest : Nat → Nat} (hin : InTime longest none s) {i j : Nat}
    {l : EventList Nat} (hnext : s.list.next = .event i l)
    (htimely : (T.kind j).Timely (longest j) (seen j s)) {p : Packet} (hp : p ∈ s.packetsAt j) :
    ∃ e, s.sent[p.id]? = some e ∧ l.now ≤ e.time + longestOver longest e.route.hops := by
  obtain ⟨d, hfollows, hline, htimes⟩ := htimely
  have hmem : p ∈ (T.kind j).packets (seen j s).comp := hp
  rw [hline] at hmem
  obtain ⟨y, hy, rfl⟩ := List.mem_map.mp hmem
  -- the front of its line has an event, and is due before it
  have hdue : l.now ≤ y.1 := by
    obtain ⟨-, -, hall, -⟩ := own_next hfollows.ordered hnext
    have hsorted := (List.pairwise_append.mp hfollows.ok.sorted).2.1
    have hown : (s.list.view j).ownEvents = (d.line.head?.map Prod.fst).toList := hfollows.own
    cases hfront : d.line with
    | nil =>
      rw [hfront] at hy
      cases hy
    | cons x rest =>
      rw [hfront] at hy hsorted hown
      have hx : l.now ≤ x.1 := hall x.1 (by rw [hown]; exact List.mem_singleton_self _)
      rcases List.mem_cons.mp hy with rfl | hrest
      · exact hx
      · exact hx.trans ((List.pairwise_cons.mp hsorted).1 y hrest)
  obtain ⟨a, ha, -, hmost⟩ := htimes y hy
  obtain ⟨e, k, he, -, hi, hon⟩ := hin.reached j (a, y.2) ha
  refine ⟨e, he, ?_⟩
  have hsum := @longestOver_take_succ longest _ _ _ hi
  have hle := longestOver_take_le longest e.route.hops (k + 1)
  have hbefore := hon.most
  dsimp only at hbefore
  omega

/-! ## What a light load is worth -/

/-- Nothing was dropped; a packet takes no longer than it takes to send all that was offered to the
    elements of its route; and one that is older has come to the host at the end. -/
structure Light (s : Network T) : Prop where
  lossless : ∀ i, s.lostAt i = []
  delivered : ∀ i, (T.kind i).isHost → ∀ x ∈ s.enteredAt i, ∃ e, s.sent[x.2.id]? = some e ∧
    e.route.hops.getLast? = some i ∧
    x.1 ≤ e.time + longestOver (stayAt T s.offered) e.route.hops
  arrives : ∀ n e, s.sent[n]? = some e →
    e.time + longestOver (stayAt T s.offered) e.route.hops < s.list.now →
    ∃ i, e.route.hops.getLast? = some i ∧ n ∈ (s.packetsAt i).map Packet.id

/-- In every state in which each queue has room for all packets whose routes lead through it,
    whoever has sent them, and when. -/
theorem light_of_fits (h : (system T).Reachable (start T) s)
    (hfits : ∀ i cfg, T.kind i = .queue cfg → s.offered i ≤ cfg.maxsize) : Light s := by
  have hwithin : Within s.offered s := fun i => le_rfl
  have hin := inTime_of_loads h hwithin
  have hnone : ∀ i, s.lostAt i = [] := fun i => no_loss h (hfits i)
  refine ⟨hnone, fun i hhost x hx => ?_, fun n e he hold => ?_⟩
  · obtain ⟨e, he, hlast, -, hmost⟩ := hin.delivered hhost (Kind.stay_of_host hhost _) hx
    exact ⟨e, he, hlast, hmost⟩
  · -- it is somewhere, was not dropped, and is not on its way
    obtain ⟨e', k, i, he', hk, hi, hholds⟩ :=
      (inPlace_reachable h).placed.once n (List.getElem?_eq_some_iff.mp he).1
    have hone : s.holds n i = 1 := by rw [hholds i, if_pos rfl]
    rw [holds, hnone i, List.map_nil, List.count_nil, Nat.add_zero] at hone
    have hmem : n ∈ (s.packetsAt i).map Packet.id := List.count_pos_iff.mp (by omega)
    obtain ⟨p, hp, rfl⟩ := List.mem_map.mp hmem
    have hhost : (T.kind i).isHost := by
      by_contra hhost
      obtain ⟨e₁, he₁, hyoung⟩ := hin.onTheWay (timely_of_loads h hwithin hhost) hp
      rw [he] at he₁
      cases he₁
      omega
    obtain ⟨e₁, he₁, -, -, hlast⟩ := (inPlace_reachable h).placed.arrived i p hhost hp
    rw [he] at he₁
    cases he₁
    exact ⟨i, hlast, hmem⟩

theorem light_of_fits_arrivedSegments : Light arrivedSegments :=
  light_of_fits reachable_arrivedSegments fun i cfg hcfg => by
    simp only [singleLink] at hcfg
    split at hcfg
    all_goals cases hcfg
    all_goals decide +kernel

end Network
end Htsim
end DatacenterNetworking
