/-
  DatacenterNetworking.Htsim.NetworkHost

  The events of one host in a network.  Whatever the others do, the events it has are
  those it has asked for and not had yet.
-/

import DatacenterNetworking.Htsim.NetworkView

namespace DatacenterNetworking
namespace Htsim

theorem Kind.no_times_of_host {k : Kind} {now : Nat} {pkt : Packet} {x : k.State}
    {r : k.State × List Nat} (hk : k.isHost) (h : k.component.receivePacket now pkt x = some r) :
    r.2 = [] := by
  cases k with
  | queue cfg => cases hk
  | pipe delay => cases hk
  | host =>
    cases h
    rfl

theorem Kind.no_next_of_host {k : Kind} {now : Nat} {x : k.State} {r : k.State × List Nat}
    (hk : k.isHost) (h : k.component.doNextEvent now x = some r) : r.2 = [] := by
  cases k with
  | queue cfg => cases hk
  | pipe delay => cases hk
  | host =>
    cases h
    rfl

namespace Network

variable {T : Topology} {c : Nat} {s t u : Network T} {times times' : List Nat}

/-- Between the two states, at one time, host `c` has asked for events at `times`. -/
def Asked (c : Nat) (times : List Nat) (s t : Network T) : Prop :=
  (s.list.view c).Ordered → (t.list.view c).Ordered ∧ t.list.now = s.list.now ∧
    (t.list.view c).ownEvents.Perm ((s.list.view c).ownEvents ++ times)

theorem Asked.refl (c : Nat) (s : Network T) : Asked c [] s s := fun hord =>
  ⟨hord, rfl, by rw [List.append_nil]⟩

theorem Asked.trans (hst : Asked c times s t) (htu : Asked c times' t u) :
    Asked c (times ++ times') s u := by
  intro hord
  obtain ⟨hord', hnow, hperm⟩ := hst hord
  obtain ⟨hord'', hnow', hperm'⟩ := htu hord'
  refine ⟨hord'', hnow'.trans hnow, hperm'.trans ?_⟩
  rw [← List.append_assoc]
  exact hperm.append_right times'

/-- The others have asked for some. -/
theorem asked_of_others {regs : List (Nat × UInt64)}
    (h : (s.list.view c).registerOthers regs = some (t.list.view c)) : Asked c [] s t := by
  intro hord
  obtain ⟨hord', hnow, hown⟩ := EventList.registerOthers_ordered hord h
  exact ⟨hord', hnow, by rw [hown, List.append_nil]⟩

/-- The host itself asks for one. -/
theorem asked_timer {time : UInt64} (h : s.hostAct (.timer c time) = some t) :
    Asked c [time.toNat] s t := by
  simp only [hostAct] at h
  split_ifs at h
  obtain ⟨l, hl, rfl⟩ := Option.map_eq_some_iff.mp h
  intro hord
  obtain ⟨l₁, h₁, hrest⟩ := Option.bind_eq_some_iff.mp (EventList.registerSelf_view hl)
  cases hrest
  obtain ⟨-, hnow, hord', hins⟩ := EventList.sourceIsPending_ordered hord time.toNat_lt h₁
  refine ⟨hord', hnow, ?_⟩
  have hperm : (l.view c).pendingsources.Perm
      ((⟨time.toNat, .self⟩ : Pending Source) :: (s.list.view c).pendingsources) := by
    rw [hins]
    exact List.perm_orderedInsert _ _ _
  refine ((hperm.filter _).map _).trans ?_
  rw [List.filter_cons_of_pos (by simp), List.map_cons]
  exact (List.perm_append_singleton _ _).symm

section Host

variable (hc : (T.kind c).isHost)
include hc

/-- A packet that arrives at a host asks for nothing. -/
theorem asked_hand {i : Nat} {pkt : Packet} (h : s.hand i pkt = some t) : Asked c [] s t := by
  by_cases hi : i = c
  · subst hi
    obtain ⟨r, hr, hlist⟩ := Option.bind_eq_some_iff.mp h
    obtain ⟨l, hl, rfl⟩ := Option.map_eq_some_iff.mp hlist
    have hnone : r.2 = [] := Kind.no_times_of_host hc hr
    rw [hnone] at hl
    cases hl
    exact Asked.refl i s
  · obtain ⟨-, regs, hregs⟩ := quiet_hand hi h
    exact asked_of_others hregs

theorem asked_sendOn {pkt : Packet} (h : s.sendOn pkt = some t) : Asked c [] s t := by
  obtain ⟨e, i, -, -, hhand⟩ := sendOn_spec h
  exact asked_hand (s := s.advance pkt.id e) hc hhand

theorem asked_emit {fly : Option Packet} (h : emit s fly = some t) : Asked c [] s t := by
  cases fly with
  | none =>
    cases h
    exact Asked.refl c s
  | some pkt => exact asked_sendOn hc h

theorem asked_send {route : Route T} {flow size : Nat}
    (h : s.hostAct (.send route flow size) = some t) : Asked c [] s t := by
  simp only [hostAct] at h
  split_ifs at h
  exact asked_sendOn (s := s.newpkt route size) hc h

/-- The other hosts act. -/
theorem asked_hostActs {acts : List (HostAct T)}
    (hothers : ∀ a ∈ acts, ∀ host time, a = .timer host time → host ≠ c)
    (h : s.hostActs acts = some t) : Asked c [] s t := by
  induction acts generalizing s with
  | nil =>
    cases h
    exact Asked.refl c _
  | cons a rest ih =>
    obtain ⟨hfirst, hrest⟩ := List.forall_mem_cons.mp hothers
    obtain ⟨s₁, h₁, h₂⟩ := Option.bind_eq_some_iff.mp h
    have hone : Asked c [] s s₁ := by
      cases a with
      | send route flow size => exact asked_send hc h₁
      | timer host time =>
        simp only [hostAct] at h₁
        split_ifs at h₁
        obtain ⟨l, hl, rfl⟩ := Option.map_eq_some_iff.mp h₁
        obtain ⟨-, regs, hregs⟩ := quiet_registerAt (hfirst host time rfl) (fun x hx => by
          rw [List.mem_singleton.mp hx]
          exact time.toNat_lt) hl
        exact asked_of_others hregs
    exact hone.trans (ih hrest h₂)

end Host

/-- The host asks for several. -/
theorem asked_timers (htimes : ∀ time ∈ times, time < 2 ^ 64)
    (h : s.hostActs (times.map fun time => .timer c (UInt64.ofNat time)) = some t) :
    Asked c times s t := by
  induction times generalizing s with
  | nil =>
    cases h
    exact Asked.refl c _
  | cons time rest ih =>
    obtain ⟨htime, hlater⟩ := List.forall_mem_cons.mp htimes
    obtain ⟨s₁, h₁, h₂⟩ := Option.bind_eq_some_iff.mp h
    have hone := asked_timer h₁
    rw [UInt64.toNat_ofNat_of_lt' htime] at hone
    exact hone.trans (ih hlater h₂)

/-- The element whose event it was asks for its next ones. -/
theorem asked_registerAt {i : Nat} {times : List Nat} {l : EventList Nat} (hi : i ≠ c)
    (htimes : ∀ time ∈ times, time < 2 ^ 64) (h : s.list.registerAt i times = some l) :
    Asked c [] s { s with list := l } := by
  obtain ⟨-, regs, hregs⟩ := quiet_registerAt hi htimes h
  exact asked_of_others hregs

/-- The next event is one of another element, and none of the host's is before it; or it is the
    first of these. -/
theorem own_next {i : Nat} {l : EventList Nat} (hord : (s.list.view c).Ordered)
    (hnext : s.list.next = .event i l) :
    (l.view c).Ordered ∧ s.list.now ≤ l.now ∧ (∀ time ∈ (s.list.view c).ownEvents, l.now ≤ time) ∧
      (i ≠ c → (l.view c).ownEvents = (s.list.view c).ownEvents) ∧
      (i = c → (s.list.view c).ownEvents = l.now :: (l.view c).ownEvents) := by
  have hview : (s.list.view c).next = .event (EventList.seenBy c i) (l.view c) :=
    EventList.next_mapSrc_event hnext
  obtain ⟨hord', hle, hcases⟩ := EventList.next_cases hord hview
  have hsorted : (s.list.view c).ownEvents.Pairwise (· ≤ ·) :=
    List.pairwise_map.mpr (hord.sorted.filter _)
  refine ⟨hord', hle, ?_⟩
  by_cases hi : i = c
  · subst hi
    rw [EventList.seenBy_self] at hcases
    rcases hcases with ⟨id, hid, -⟩ | ⟨-, hown⟩
    · cases hid
    · refine ⟨?_, fun hne => absurd rfl hne, fun _ => hown⟩
      rw [hown] at hsorted ⊢
      exact List.forall_mem_cons.mpr ⟨le_rfl, (List.pairwise_cons.mp hsorted).1⟩
  · rw [EventList.seenBy_ne hi] at hcases
    rcases hcases with ⟨id, -, hown, hhead⟩ | ⟨hself, -⟩
    · refine ⟨?_, fun _ => hown, fun heq => absurd heq hi⟩
      cases hlist : (s.list.view c).ownEvents with
      | nil => exact fun time htime => absurd htime List.not_mem_nil
      | cons first rest =>
        rw [hlist] at hsorted hhead
        have hfirst := hhead first rfl
        exact List.forall_mem_cons.mpr
          ⟨hfirst, fun time htime => hfirst.trans ((List.pairwise_cons.mp hsorted).1 time htime)⟩
    · cases hself

/-- What a dispatch in which the host asks for events leaves of them. -/
theorem asked_dispatch (hc : (T.kind c).isHost) (hs : Projects s)
    (hord : (s.list.view c).Ordered) {acts : List (HostAct T)}
    (hacts : ∀ {u v : Network T}, u.hostActs acts = some v → Asked c times u v)
    (hstep : s.step (.dispatch acts) = some t) {i : Nat} {l : EventList Nat}
    (hnext : s.list.next = .event i l) :
    (t.list.view c).Ordered ∧ t.list.now = l.now ∧
      (t.list.view c).ownEvents.Perm ((l.view c).ownEvents ++ times) := by
  obtain ⟨i', l₀, r, s₁, s₂, l', hnext', -, hr, h₁, h₂, hl', rfl⟩ := dispatch_parts hstep
  rw [hnext] at hnext'
  cases hnext'
  have hfirst : Asked c times (s.withElem l i r.1) s₂ :=
    (asked_emit hc h₁).trans (hacts h₂)
  have hlast : Asked c [] s₂ { s₂ with list := l' } := by
    by_cases hi : i = c
    · subst hi
      rw [Kind.no_next_of_host hc hr] at hl'
      cases hl'
      exact Asked.refl i s₂
    · refine asked_registerAt hi (Kind.event_times ?_ hr) hl'
      by_cases hhost : (T.kind i).isHost
      · exact Kind.stored_of_host hhost _
      · obtain ⟨bs, -, hrun⟩ := hs.runs i hhost
        exact stored_of_run hrun
  obtain ⟨hord', -⟩ := own_next hord hnext
  have hall := (hfirst.trans hlast) hord'
  rw [List.append_nil] at hall
  exact hall

end Network
end Htsim
end DatacenterNetworking
