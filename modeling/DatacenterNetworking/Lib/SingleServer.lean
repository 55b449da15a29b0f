/-
  DatacenterNetworking.Lib.SingleServer

  A server of one item at a time.  An arrival is stored, perhaps dropped, and starts a
  service when the server was empty; the end of a service starts the next one.  Whether
  the server was empty is read off the item in service and the list of those that wait.

    * `serving_arrive`, `serving_complete` — from an idle server on, nothing waits
      unless something is in service;
    * `jammed_arrive`, `finish_of_jammed` — a server that seems to be busy and has
      no end of service to wait for never serves at all.
-/

import Mathlib.Data.List.Basic

namespace DatacenterNetworking

/-- A server with states `σ` of items `α`.  `store` is an arrival, `start` takes the next
    item into service, `finish` ends a service; `pending` counts the ends registered. -/
structure Server (σ : Type*) (α : Type*) where
  waiting : σ → List α
  current : σ → Option α
  pending : σ → Nat
  store : σ → α → σ
  start : σ → σ
  finish : σ → Option σ
  store_service : ∀ s x, pending (store s x) = pending s ∧ current (store s x) = current s
  start_nil : ∀ {s}, waiting s = [] → start s = s
  start_cons : ∀ {s x rest}, waiting s = x :: rest →
    current (start s) = some x ∧ pending (start s) = pending s + 1
  finish_service : ∀ {s t}, finish s = some t → pending s = pending t + 1 ∧ current t = none

namespace Server

variable {σ α : Type*} (V : Server σ α)

/-- The server seems to be empty. -/
def wasEmpty (s : σ) : Bool := (V.current s).isNone && (V.waiting s).isEmpty

/-- The state after a service is started, with the items taken into service. -/
def begin (s : σ) : σ × List α := (V.start s, (V.waiting s).take 1)

/-- An arrival. -/
def arrive (s : σ) (x : α) : σ × List α :=
  if V.wasEmpty s then V.begin (V.store s x) else (V.store s x, [])

/-- The end of a service. -/
def complete (s : σ) : Option (σ × List α) := (V.finish s).map V.begin

/-- Nothing is in service and nothing waits. -/
structure Idle (s : σ) : Prop where
  pending : V.pending s = 0
  current : V.current s = none
  waiting : V.waiting s = []

/-- The item taken last is in service, and one end of service is registered. -/
structure Busy (s : σ) (taken : List α) : Prop where
  pending : V.pending s = 1
  current : ∃ x, V.current s = some x ∧ taken.getLast? = some x

/-- The server is idle or busy. -/
def Serving (s : σ) (taken : List α) : Prop := V.Idle s ∨ V.Busy s taken

/-- The server seems to be busy, and no end of service is registered. -/
structure Jammed (s : σ) : Prop where
  pending : V.pending s = 0
  current : V.current s ≠ none

variable {V}

theorem serving_begin {s : σ} (hpending : V.pending s = 0) (hcurrent : V.current s = none)
    (taken : List α) : V.Serving (V.begin s).1 (taken ++ (V.begin s).2) := by
  cases hwait : V.waiting s with
  | nil =>
    refine Or.inl ?_
    rw [begin, V.start_nil hwait]
    exact ⟨hpending, hcurrent, hwait⟩
  | cons x rest =>
    obtain ⟨hcur, hpend⟩ := V.start_cons hwait
    refine Or.inr ⟨by rw [begin, hpend, hpending], x, hcur, ?_⟩
    rw [begin, hwait, List.take_succ_cons, List.take_zero, List.getLast?_concat]

theorem serving_arrive {s : σ} {taken : List α} (h : V.Serving s taken) (x : α) :
    V.Serving (V.arrive s x).1 (taken ++ (V.arrive s x).2) := by
  obtain ⟨hpend, hcur⟩ := V.store_service s x
  rw [arrive]
  rcases h with hidle | hbusy
  · have hempty : V.wasEmpty s = true := by
      rw [wasEmpty, hidle.current, hidle.waiting]
      rfl
    rw [if_pos hempty]
    exact serving_begin (hpend.trans hidle.pending) (hcur.trans hidle.current) taken
  · obtain ⟨y, hy, hlast⟩ := hbusy.current
    have hempty : ¬ V.wasEmpty s = true := by
      rw [wasEmpty, hy]
      exact Bool.false_ne_true
    rw [if_neg hempty, List.append_nil]
    exact Or.inr ⟨hpend.trans hbusy.pending, y, hcur.trans hy, hlast⟩

theorem serving_complete {s : σ} {taken : List α} (h : V.Serving s taken) {r : σ × List α}
    (hr : V.complete s = some r) : V.Serving r.1 (taken ++ r.2) := by
  obtain ⟨t, hfin, rfl⟩ := Option.map_eq_some_iff.mp hr
  obtain ⟨hpend, hcur⟩ := V.finish_service hfin
  refine serving_begin ?_ hcur taken
  rcases h with hidle | hbusy
  · have h0 := hidle.pending
    omega
  · have h1 := hbusy.pending
    omega

/-- A jammed server stores what arrives, and takes nothing into service. -/
theorem jammed_arrive {s : σ} (h : V.Jammed s) (x : α) :
    V.arrive s x = (V.store s x, []) ∧ V.Jammed (V.store s x) := by
  obtain ⟨hpend, hcur⟩ := V.store_service s x
  have hempty : ¬ V.wasEmpty s = true := by
    rw [wasEmpty, Bool.and_eq_true, Option.isNone_iff_eq_none]
    exact fun hnone => h.current hnone.1
  refine ⟨if_neg hempty, hpend.trans h.pending, ?_⟩
  rw [hcur]
  exact h.current

/-- There is no service to end in a jammed server. -/
theorem finish_of_jammed {s : σ} (h : V.Jammed s) : V.finish s = none := by
  rw [Option.eq_none_iff_forall_ne_some]
  intro t ht
  have hpend := (V.finish_service ht).1
  rw [h.pending] at hpend
  omega

end Server
end DatacenterNetworking
