/-
  DatacenterNetworking.Htsim.ConnectionFlow

  A flow over queues and pipes refines the flow over an abstract network (`Htsim.Flow`),
  whose packets in flight are two lists.  In these lists are the contents of the flow's
  packets that are in a queue or a pipe, in the order in which they were made.

  The abstract network may lose, duplicate, delay and reorder packets.  Of queues and
  pipes not all of this is left (`Orderly`): what arrives is the oldest packet in flight,
  and nothing is duplicated.

  `refines_flow`: whatever the other flows do, every run of the connection is an orderly
  run of the abstract flow, with the same source and sink at the same times.
-/

import DatacenterNetworking.Htsim.Connection
import DatacenterNetworking.Lib.Simulation

namespace DatacenterNetworking
namespace Htsim

/-! ## Orderly runs -/

namespace Flow

/-- Packets arrive in order, and none is duplicated. -/
def Orderly : Act → Prop
  | .deliverData i => i = 0
  | .deliverAck i => i = 0
  | .dataFault (.duplicate _) => False
  | .ackFault (.duplicate _) => False
  | _ => True

variable {S K : Type} {E : Endhost S K} {f : Flow S K}

/-- Time goes on to one that is not beyond the next event. -/
theorem step_advance {time : Nat} (halive : f.alive = true) (hnow : f.now ≤ time)
    (hpending : ∀ w ∈ (E.source f.src).pending, time ≤ w) :
    (system E).step f (.advance time) = some { f with now := time } := by
  simp only [system, step, if_pos halive, act, if_pos (And.intro hnow hpending)]

/-- The oldest data packet is marked. -/
theorem step_mark {p : DataPacket} {rest : List DataPacket} (halive : f.alive = true)
    (hdata : f.data = p :: rest) : (system E).step f (.markEcn 0) =
      some { f with data := { p with ecnFwd := true } :: rest } := by
  simp only [system, step, if_pos halive, act, hdata, List.getElem?_cons_zero, Option.map_some,
    List.set_cons_zero]

/-- The oldest data packet arrives. -/
theorem step_deliverData {p : DataPacket} {rest : List DataPacket} (halive : f.alive = true)
    (hdata : f.data = p :: rest) : (system E).step f (.deliverData 0) =
      some { f with
        data := rest
        sink := (E.sinkReceive f.now p f.sink).1
        acks := f.acks ++ [(E.sinkReceive f.now p f.sink).2]
        rcvd := f.rcvd ++ [p] } := by
  simp only [system, step, if_pos halive, act, deliver, hdata, List.getElem?_cons_zero,
    Option.map_some, List.eraseIdx_cons_zero]

/-- The oldest ack arrives. -/
theorem step_deliverAck {a : DataAck} {rest : List DataAck} (halive : f.alive = true)
    (hacks : f.acks = a :: rest) : (system E).step f (.deliverAck 0) =
      some ({ f with acks := rest }.handOn E (E.receivePacket f.now a f.src)) := by
  simp only [system, step, if_pos halive, act, deliver, hacks, List.getElem?_cons_zero,
    Option.map_some, List.eraseIdx_cons_zero]

/-- The source has its next event. -/
theorem step_event {time : Nat} {src : S} (halive : f.alive = true)
    (hmin : (E.source f.src).pending.min? = some time) (hnow : f.now ≤ time)
    (hdo : E.doNextEvent time (f.data.length + f.acks.length) (f.popEvent E time).src = some src) :
    (system E).step f .event = some ((f.popEvent E time).handOn E src) := by
  simp only [system, step, if_pos halive, act, hmin, Option.bind_some, if_pos hnow, hdo]

/-- In it the source deletes itself. -/
theorem step_deleted {time : Nat} (halive : f.alive = true)
    (hmin : (E.source f.src).pending.min? = some time) (hnow : f.now ≤ time)
    (hdo : E.doNextEvent time (f.data.length + f.acks.length) (f.popEvent E time).src = none) :
    (system E).step f .event = some { f.popEvent E time with alive := false } := by
  simp only [system, step, if_pos halive, act, hmin, Option.bind_some, if_pos hnow, hdo]

/-- Any data packets may get lost. -/
theorem reaches_dataLoss {data : List DataPacket} (halive : f.alive = true)
    (hsub : data.Sublist f.data) : (system E).Reaches Orderly f { f with data := data } := by
  obtain ⟨numbers, hlose⟩ := loseAll_of_sublist hsub []
  rw [List.nil_append, List.nil_append] at hlose
  clear hsub
  induction numbers generalizing f with
  | nil =>
    cases hlose
    exact Lts.Reaches.refl f
  | cons i rest ih =>
    obtain ⟨chan, hfirst, hrest⟩ := Option.bind_eq_some_iff.mp hlose
    have hone : (system E).Reaches Orderly f { f with data := chan } := by
      refine Lts.Reaches.single (a := .dataFault (.lose i)) trivial ?_
      simp only [system, step, if_pos halive, act, hfirst, Option.map_some]
    exact hone.trans (ih (f := { f with data := chan }) halive hrest)

/-- The network may lose any acks. -/
theorem reaches_ackLoss {acks : List DataAck} (halive : f.alive = true)
    (hsub : acks.Sublist f.acks) : (system E).Reaches Orderly f { f with acks := acks } := by
  obtain ⟨numbers, hlose⟩ := loseAll_of_sublist hsub []
  rw [List.nil_append, List.nil_append] at hlose
  clear hsub
  induction numbers generalizing f with
  | nil =>
    cases hlose
    exact Lts.Reaches.refl f
  | cons i rest ih =>
    obtain ⟨chan, hfirst, hrest⟩ := Option.bind_eq_some_iff.mp hlose
    have hone : (system E).Reaches Orderly f { f with acks := chan } := by
      refine Lts.Reaches.single (a := .ackFault (.lose i)) trivial ?_
      simp only [system, step, if_pos halive, act, hfirst, Option.map_some]
    exact hone.trans (ih (f := { f with acks := chan }) halive hrest)

theorem reaches_loss {data : List DataPacket} {acks : List DataAck} (halive : f.alive = true)
    (hdata : data.Sublist f.data) (hacks : acks.Sublist f.acks) :
    (system E).Reaches Orderly f { f with data := data, acks := acks } :=
  (reaches_dataLoss halive hdata).trans
    (reaches_ackLoss (f := { f with data := data }) halive hacks)

/-- The oldest data packet arrives, with the mark it has got on its way. -/
theorem reaches_deliverData {p : DataPacket} {rest : List DataPacket} (mark : Bool)
    (halive : f.alive = true) (hdata : f.data = p :: rest) :
    let k := E.sinkReceive f.now { p with ecnFwd := p.ecnFwd || mark } f.sink
    ∃ rcvd, (system E).Reaches Orderly f
      { f with data := rest, sink := k.1, acks := f.acks ++ [k.2], rcvd := rcvd } := by
  -- a mark is set at once, if one was set on the way
  have hmark : (system E).Reaches Orderly f
      { f with data := { p with ecnFwd := p.ecnFwd || mark } :: rest } := by
    cases mark with
    | false =>
      rw [Bool.or_false, ← hdata]
      exact Lts.Reaches.refl f
    | true =>
      rw [Bool.or_true]
      exact Lts.Reaches.single (a := .markEcn 0) trivial (step_mark halive hdata)
  refine ⟨f.rcvd ++ [{ p with ecnFwd := p.ecnFwd || mark }], hmark.trans ?_⟩
  exact Lts.Reaches.single (a := .deliverData 0) rfl (step_deliverData halive rfl)

end Flow

namespace Connection

variable {T : Topology} {S K : Type} {C : Connection T} {E : Endhost S K}

/-! ## What is in flight -/

section Flying

variable {α : Type} {made : List (α × Nat)} {net net' : Network T}

theorem flying_append (net : Network T) (xs ys : List (α × Nat)) :
    State.flying net (xs ++ ys) = State.flying net xs ++ State.flying net ys := by
  rw [State.flying, List.filter_append, List.map_append]
  rfl

theorem flying_eq_nil (h : ∀ e ∈ made, net.inFlight e.2 = false) : State.flying net made = [] := by
  rw [State.flying, List.map_eq_nil_iff, List.filter_eq_nil_iff]
  exact fun e he => by rw [h e he]; exact Bool.false_ne_true

/-- Packets leave. -/
theorem flying_sublist (h : ∀ e ∈ made, net'.inFlight e.2 = true → net.inFlight e.2 = true) :
    (State.flying net' made).Sublist (State.flying net made) := by
  have hboth : made.filter (fun e => net'.inFlight e.2) =
      (made.filter fun e => net.inFlight e.2).filter fun e => net'.inFlight e.2 := by
    rw [List.filter_filter]
    refine List.filter_congr fun e he => ?_
    cases hin : net'.inFlight e.2 with
    | false => rfl
    | true => rw [h e he hin, Bool.and_self]
  rw [State.flying, State.flying, hboth]
  exact List.filter_sublist.map _

/-- New packets do so, too. -/
theorem flying_new (h : ∀ e ∈ made, net'.inFlight e.2 = true → net.inFlight e.2 = true)
    (new : List α) (len : Nat) :
    (State.flying net' (made ++ new.zipIdx len)).Sublist (State.flying net made ++ new) := by
  rw [flying_append]
  refine (flying_sublist h).append ?_
  have hmap : (new.zipIdx len).map Prod.fst = new := List.zipIdx_map_fst _ _
  conv_rhs => rw [← hmap]
  exact List.filter_sublist.map _

/-- A packet that is in flight comes before those that are when only later ones are left. -/
theorem flying_first {p : α} {n : Nat} (horder : (made.map Prod.snd).Pairwise (· < ·))
    (hp : (p, n) ∈ made) (hn : net.inFlight n = true)
    (h : ∀ e ∈ made, net'.inFlight e.2 = true → net.inFlight e.2 = true ∧ n < e.2) :
    (p :: State.flying net' made).Sublist (State.flying net made) := by
  obtain ⟨before, after, rfl⟩ := List.append_of_mem hp
  rw [List.map_append, List.map_cons] at horder
  have hbefore : State.flying net' before = [] := by
    refine flying_eq_nil fun e he => ?_
    by_contra hin
    have hlt := (h e (List.mem_append_left _ he) (by simpa using hin)).2
    have hgt := (List.pairwise_append.mp horder).2.2 e.2 (List.mem_map_of_mem he) n
      List.mem_cons_self
    omega
  have hself : State.flying net' [(p, n)] = [] := by
    refine flying_eq_nil fun e he => ?_
    rw [List.mem_singleton.mp he]
    by_contra hin
    exact Nat.lt_irrefl n (h (p, n) hp (by simpa using hin)).2
  have hafter : (State.flying net' after).Sublist (State.flying net after) :=
    flying_sublist fun e he hin =>
      (h e (List.mem_append_right _ (List.mem_cons_of_mem _ he)) hin).1
  rw [List.append_cons, flying_append, flying_append, hbefore, hself, flying_append, flying_append]
  have hone : State.flying net [(p, n)] = [p] := by
    simp [State.flying, hn]
  rw [hone, List.nil_append, List.nil_append, List.append_assoc]
  exact (hafter.cons_cons p).trans (List.sublist_append_right _ _)

end Flying

/-! ## The relation -/

/-- The ends are the same at the same time.  Once the source has deleted itself nothing goes on,
    and what is in flight does not matter. -/
structure Refines (s : State S K T) (f : Flow S K) : Prop where
  now : f.now = s.net.list.now
  src : f.src = s.src
  sink : f.sink = s.sink
  alive : f.alive = s.alive
  data : s.alive = true → f.data = State.flying s.net s.data
  acks : s.alive = true → f.acks = State.flying s.net s.acks

theorem refines_init (C : Connection T) (E : Endhost S K) (flowsize duration : Nat)
    (startTime : UInt64) :
    Refines (C.init E flowsize duration startTime)
      (Flow.init E flowsize duration startTime.toNat 0) :=
  ⟨rfl, rfl, rfl, rfl, fun _ => rfl, fun _ => rfl⟩

/-! ## A step -/

/-- A packet that is made stays in flight, or leaves. -/
theorem inFlight_later {net net' : Network T} (hplace : Network.InPlace none net)
    (hplace' : Network.InPlace none net') (hlater : Network.Later net net') {hops : List Nat}
    {n : Nat} (hn : net.hopsOf n = some hops) (h : net'.inFlight n = true) :
    net.inFlight n = true :=
  (Network.inFlight_iff hplace).mpr
    (hlater.flying n (Network.hopsOf_lt hn) ((Network.inFlight_iff hplace').mp h))

/-- The first packet of those in flight, in a dispatch in which it arrives. -/
theorem flying_arrival {α : Type} {made : List (α × Nat)} {net net' : Network T} {R : Route T}
    (hreach : (Network.system T).Reachable (Network.start T) net)
    {acts : List (Network.HostAct T)} (hstep : net.step (.dispatch acts) = some net')
    {i : Nat} {l : EventList Nat} (hnext : net.list.next = .event i l) {h : Nat} {pkt : Packet}
    (ha : net.arrival i = some (h, pkt)) (hroute : ∀ e ∈ made, net.hopsOf e.2 = some R.hops)
    (horder : (made.map Prod.snd).Pairwise (· < ·)) {p : α}
    (hp : State.lookup made pkt.id = some p) :
    (p :: State.flying net' made).Sublist (State.flying net made) := by
  have hplace := Network.inPlace_reachable hreach
  have hplace' : Network.InPlace none net' := Network.inPlace_step hplace hstep
  have hmem := lookup_spec hp
  refine flying_first horder hmem
    ((Network.inFlight_iff hplace).mpr (Network.flying_of_arrival ha)) fun e he hin => ?_
  refine ⟨inFlight_later hplace hplace' (Network.later_step hstep) (hroute e he) hin, ?_⟩
  exact Network.overtakes_dispatch hplace (Network.inOrder_reachable hreach) hnext ha hstep
    (hroute _ hmem) (hroute e he) ((Network.inFlight_iff hplace').mp hin)

section Step

variable {s : State S K T} {f : Flow S K} {others : List (Network.HostAct T)} {i : Nat}
  {l : EventList Nat}

/-- The events of the source are not before that of the network. -/
theorem Ok.next (h : Ok C E s) (hnext : s.net.list.next = .event i l) :
    s.net.list.now ≤ l.now ∧ (∀ w ∈ (E.source s.src).pending, l.now ≤ w) ∧
      (i = C.src → (E.source s.src).pending.min? = some l.now) := by
  obtain ⟨-, hle, hall, -, hself⟩ := Network.own_next h.list hnext
  have hpending : ∀ w ∈ (E.source s.src).pending, l.now ≤ w := fun w hw =>
    hall w (h.pending.mem_iff.mpr hw)
  refine ⟨hle, hpending, fun hi => ?_⟩
  refine List.min?_eq_some_iff.mpr ⟨h.pending.mem_iff.mp ?_, hpending⟩
  rw [hself hi]
  exact List.mem_cons_self

theorem refines_dispatch (hE : E.Registers) (hok : Ok C E s) (h : Refines s f)
    (halive : s.alive = true) (hothers : ∀ a ∈ others, C.Foreign a)
    {r : State S K T × List (Network.HostAct T)} {net : Network T}
    (hnext : s.net.list.next = .event i l) (hr : Reacts C E s i l.now r)
    (hstep : s.net.step (.dispatch (r.2 ++ others)) = some net) :
    ∃ f', (Flow.system E).Reaches Flow.Orderly f f' ∧ Refines { r.1 with net := net } f' := by
  have hnow : net.list.now = l.now := (ok_dispatch hE hok hothers hnext hr hstep).2
  obtain ⟨hle, hpending, hmin⟩ := hok.next hnext
  have hfalive : f.alive = true := h.alive.trans halive
  have hfdata := h.data halive
  have hfacks := h.acks halive
  have hplace := Network.inPlace_reachable hok.net
  have hplace' : Network.InPlace none net := Network.inPlace_step hplace hstep
  have hlater := Network.later_step hstep
  -- what was made before and is in flight now was in flight before
  have hdata : ∀ e ∈ s.data, net.inFlight e.2 = true → s.net.inFlight e.2 = true :=
    fun e he => inFlight_later hplace hplace' hlater (hok.data e he)
  have hacks : ∀ e ∈ s.acks, net.inFlight e.2 = true → s.net.inFlight e.2 = true :=
    fun e he => inFlight_later hplace hplace' hlater (hok.acks e he)
  have htime : (Flow.system E).Reaches Flow.Orderly f { f with now := l.now } := by
    refine Lts.Reaches.single (a := .advance l.now) trivial
      (Flow.step_advance hfalive (by rw [h.now]; exact hle) ?_)
    rw [h.src]
    exact hpending
  have hnPackets : f.data.length + f.acks.length = s.nPackets := by
    rw [hfdata, hfacks]
    rfl
  have hpop : (f.popEvent E l.now).src = (s.popEvent E l.now).src := by
    simp only [Flow.popEvent, State.popEvent, h.src]
  have hfnow : f.now ≤ l.now := by
    rw [h.now]
    exact hle
  cases hr with
  | idle hi _ =>
    have hleft : (State.flying net s.data).Sublist f.data := by
      rw [hfdata]
      exact flying_sublist hdata
    have hleft' : (State.flying net s.acks).Sublist f.acks := by
      rw [hfacks]
      exact flying_sublist hacks
    exact ⟨_, htime.trans (Flow.reaches_loss (f := { f with now := l.now }) hfalive hleft hleft'),
      hnow.symm, h.src, h.sink, h.alive, fun _ => rfl, fun _ => rfl⟩
  | @event hi src r hdo hr =>
    obtain ⟨pkts, times, hpkts, -, -, rfl⟩ := handOn_spec hr
    have hevent : (Flow.system E).Reaches Flow.Orderly f ((f.popEvent E l.now).handOn E src) := by
      refine Lts.Reaches.single (a := .event) trivial
        (Flow.step_event hfalive (by rw [h.src]; exact hmin hi) hfnow ?_)
      rw [hnPackets, hpop]
      exact hdo
    have hsent : ((f.popEvent E l.now).handOn E src).data = f.data ++ pkts := by
      rw [hpkts, ← hpop]
      rfl
    have hleft : (State.flying net (s.data ++ pkts.zipIdx s.net.sent.length)).Sublist
        ((f.popEvent E l.now).handOn E src).data := by
      rw [hsent, hfdata]
      exact flying_new hdata _ _
    have hleft' : (State.flying net s.acks).Sublist ((f.popEvent E l.now).handOn E src).acks := by
      show List.Sublist _ f.acks
      rw [hfacks]
      exact flying_sublist hacks
    exact ⟨_, hevent.trans (Flow.reaches_loss hfalive hleft hleft'), hnow.symm, rfl, h.sink,
      h.alive, fun _ => rfl, fun _ => rfl⟩
  | deleted hi hdo =>
    have hdead : (Flow.system E).Reaches Flow.Orderly f
        { f.popEvent E l.now with alive := false } := by
      refine Lts.Reaches.single (a := .event) trivial
        (Flow.step_deleted hfalive (by rw [h.src]; exact hmin hi) hfnow ?_)
      rw [hnPackets, hpop]
      exact hdo
    exact ⟨_, hdead, hnow.symm, hpop, h.sink, rfl, fun hc => (by cases hc), fun hc => (by cases hc)⟩
  | @data hi j pkt p ha hp =>
    -- the packet is the first of those in flight
    have hfirst : (p :: State.flying net s.data).Sublist f.data := by
      rw [hfdata]
      exact flying_arrival hok.net hstep hnext ha hok.data hok.dataOrder hp
    have hlost := Flow.reaches_dataLoss (E := E) (f := { f with now := l.now }) hfalive hfirst
    obtain ⟨rcvd, hdeliver⟩ := Flow.reaches_deliverData (E := E) pkt.ecnFwd
      (f := { f with now := l.now, data := p :: State.flying net s.data }) hfalive rfl
    have hleft : (State.flying net (s.acks ++ [((E.sinkReceive l.now
        { p with ecnFwd := p.ecnFwd || pkt.ecnFwd } f.sink).2, s.net.sent.length)])).Sublist
        (f.acks ++ [(E.sinkReceive l.now
          { p with ecnFwd := p.ecnFwd || pkt.ecnFwd } f.sink).2]) := by
      rw [hfacks]
      exact flying_new hacks [_] _
    refine ⟨_, ((htime.trans hlost).trans hdeliver).trans (Flow.reaches_ackLoss ?_ hleft), ?_⟩
    · exact hfalive
    · refine ⟨hnow.symm, h.src, ?_, h.alive, fun _ => rfl, fun _ => ?_⟩
      · show (E.sinkReceive l.now _ f.sink).1 = _
        rw [h.sink]
      · show State.flying net _ = State.flying net _
        rw [h.sink]
  | @ack hi j pkt a r ha hp hr =>
    obtain ⟨pkts, times, hpkts, -, -, rfl⟩ := handOn_spec hr
    have hfirst : (a :: State.flying net s.acks).Sublist f.acks := by
      rw [hfacks]
      exact flying_arrival hok.net hstep hnext ha hok.acks hok.acksOrder hp
    have hlost := Flow.reaches_ackLoss (E := E) (f := { f with now := l.now }) hfalive hfirst
    have hdeliver := Lts.Reaches.single (a := Flow.Act.deliverAck 0) (G := Flow.Orderly) rfl
      (Flow.step_deliverAck (E := E)
        (f := { f with now := l.now, acks := a :: State.flying net s.acks }) hfalive rfl)
    have hsrc : E.receivePacket l.now a f.src = E.receivePacket l.now a s.src := by rw [h.src]
    have hleft : (State.flying net (s.data ++ pkts.zipIdx s.net.sent.length)).Sublist
        (({ f with now := l.now, acks := State.flying net s.acks } : Flow S K).handOn E
          (E.receivePacket l.now a f.src)).data := by
      show List.Sublist _ (f.data ++ _)
      rw [hfdata, hsrc, h.src, ← hpkts]
      exact flying_new hdata _ _
    refine ⟨_, ((htime.trans hlost).trans hdeliver).trans (Flow.reaches_dataLoss ?_ hleft), ?_⟩
    · exact hfalive
    · exact ⟨hnow.symm, hsrc, h.sink, h.alive, fun _ => rfl, fun _ => rfl⟩

theorem refines_step (hE : E.Registers) {t : State S K T} {a : Network.Act T} (hok : Ok C E s)
    (h : Refines s f) (hstep : C.step E s a = some t) :
    ∃ f', (Flow.system E).Reaches Flow.Orderly f f' ∧ Refines t f' := by
  obtain ⟨halive, ⟨others, net, -, hothers, hnet, rfl⟩ |
    ⟨others, i, l, r, net, -, hothers, hnext, hr, hnet, rfl⟩⟩ := step_cases hstep
  · -- nothing of the flow is sent or received
    obtain ⟨-, hnow, -⟩ := Network.asked_hostActs C.host_src (not_timer_of_foreign hothers)
      hnet hok.list
    have hplace := Network.inPlace_reachable hok.net
    have hplace' : Network.InPlace none net := Network.inPlace_step hplace hnet
    have hlater := Network.later_step hnet
    have hleft : (State.flying net s.data).Sublist f.data := by
      rw [h.data halive]
      exact flying_sublist fun e he => inFlight_later hplace hplace' hlater (hok.data e he)
    have hleft' : (State.flying net s.acks).Sublist f.acks := by
      rw [h.acks halive]
      exact flying_sublist fun e he => inFlight_later hplace hplace' hlater (hok.acks e he)
    exact ⟨_, Flow.reaches_loss (h.alive.trans halive) hleft hleft', h.now.trans hnow.symm, h.src,
      h.sink, h.alive, fun _ => rfl, fun _ => rfl⟩
  · exact refines_dispatch hE hok h halive hothers hnext hr hnet

end Step

/-! ## Every run -/

theorem reaches_of_run (hE : E.Registers) {flowsize duration : Nat} {startTime : UInt64}
    {acts : List (Network.Act T)} {s : State S K T}
    (h : (C.system E).run (C.init E flowsize duration startTime) acts = some s) :
    ∃ f, (Flow.system E).Reaches Flow.Orderly
      (Flow.init E flowsize duration startTime.toNat 0) f ∧ Ok C E s ∧ Refines s f :=
  Lts.run_simulates (R := fun (s : State S K T) f => Ok C E s ∧ Refines s f) (N := Flow.system E)
    (G := Flow.Orderly) (fun ⟨hok, hrel⟩ hstep => by
      obtain ⟨f', hreach, hrel'⟩ := refines_step hE hok hrel hstep
      exact ⟨f', hreach, ok_step hE hok hstep, hrel'⟩)
    ⟨ok_init C E flowsize duration startTime, refines_init C E flowsize duration startTime⟩ h

/-- Every state of a flow over queues and pipes is one of the abstract flow, in an orderly run. -/
theorem refines_flow (hE : E.Registers) {flowsize duration : Nat} {startTime : UInt64}
    {acts : List (Network.Act T)} {s : State S K T}
    (h : (C.system E).run (C.init E flowsize duration startTime) acts = some s) :
    ∃ f, (Flow.system E).Reaches Flow.Orderly
      (Flow.init E flowsize duration startTime.toNat 0) f ∧ Refines s f := by
  obtain ⟨f, hreach, -, hrel⟩ := reaches_of_run hE h
  exact ⟨f, hreach, hrel⟩

end Connection
end Htsim
end DatacenterNetworking
