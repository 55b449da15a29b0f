/-
  DatacenterNetworking.Htsim.EventView

  The event list as one source sees it.  The sources of a simulation are numbered; for
  one of them its own events are `self`, and all others are `other` with their number.
  The operations of the list commute with the view.
-/

import DatacenterNetworking.Htsim.Component

namespace DatacenterNetworking
namespace Htsim

/-- An insertion under a map that keeps the keys. -/
theorem map_insertByKey {α β : Type*} {key : α → Nat} {key' : β → Nat} {f : α → β}
    (hf : ∀ x, key' (f x) = key x) (x : α) (l : List α) :
    (insertByKey key x l).map f = insertByKey key' (f x) (l.map f) :=
  List.map_orderedInsert _ _ f l x (fun a _ => by rw [hf, hf]) fun a _ => by rw [hf, hf]

namespace EventList

/-- The same events, of other sources. -/
def mapSrc {S S' : Type} (f : S → S') (l : EventList S) : EventList S' where
  pendingsources := l.pendingsources.map fun e => ⟨e.time, f e.src⟩
  endtime := l.endtime
  lasteventtime := l.lasteventtime
  nEventsProcessed := l.nEventsProcessed

section Map

variable {S S' : Type} {f : S → S'}

@[simp] theorem now_mapSrc (l : EventList S) : (l.mapSrc f).now = l.now := rfl

theorem sourceIsPending_mapSrc (l : EventList S) (src : S) (time : Nat) :
    (l.mapSrc f).sourceIsPending (f src) time = (l.sourceIsPending src time).map (mapSrc f) := by
  have hins := map_insertByKey (f := fun e : Pending S => (⟨e.time, f e.src⟩ : Pending S'))
    (fun _ => rfl : ∀ e : Pending S, Pending.time ⟨e.time, f e.src⟩ = e.time) ⟨time, src⟩
    l.pendingsources
  rw [sourceIsPending, sourceIsPending]
  by_cases hnow : l.now ≤ time
  · rw [if_pos hnow, if_pos (show (l.mapSrc f).now ≤ time from hnow)]
    by_cases hacc : l.Accepts time
    · rw [if_pos hacc, if_pos (show (l.mapSrc f).Accepts time from hacc), Option.map_some]
      simp only [mapSrc, hins]
    · rw [if_neg hacc, if_neg (show ¬ (l.mapSrc f).Accepts time from hacc)]
      rfl
  · rw [if_neg hnow, if_neg (show ¬ (l.mapSrc f).now ≤ time from hnow)]
    rfl

/-- The next event, of the other source. -/
theorem next_mapSrc_event {l l' : EventList S} {src : S} (h : l.next = .event src l') :
    (l.mapSrc f).next = .event (f src) (l'.mapSrc f) := by
  simp only [next] at h ⊢
  split at h
  · cases h
  · rename_i e rest hpend
    split_ifs at h with hle
    cases h
    simp only [mapSrc, hpend, List.map_cons]
    rw [if_pos hle]

end Map

/-- One source asks for events. -/
def registerAt (l : EventList Nat) (i : Nat) : List Nat → Option (EventList Nat)
  | [] => some l
  | time :: rest => (l.sourceIsPending i time).bind fun l' => l'.registerAt i rest

/-- What source `i` sees in place of source `j`. -/
def seenBy (i j : Nat) : Source := if j = i then .self else .other j

/-- The list as source `i` sees it. -/
def view (i : Nat) (l : EventList Nat) : EventList Source := l.mapSrc (seenBy i)

@[simp] theorem now_view (i : Nat) (l : EventList Nat) : (l.view i).now = l.now := rfl

theorem seenBy_self (i : Nat) : seenBy i i = .self := if_pos rfl

theorem seenBy_ne {i j : Nat} (h : j ≠ i) : seenBy i j = .other j := if_neg h

theorem registerSelf_view {l l' : EventList Nat} {i : Nat} {times : List Nat}
    (h : l.registerAt i times = some l') : (l.view i).registerSelf times = some (l'.view i) := by
  induction times generalizing l with
  | nil =>
    cases h
    rfl
  | cons time rest ih =>
    obtain ⟨l₁, h₁, hrest⟩ := Option.bind_eq_some_iff.mp h
    have hmap := sourceIsPending_mapSrc (f := seenBy i) l i time
    rw [h₁, Option.map_some, seenBy_self] at hmap
    rw [registerSelf, view, hmap, Option.bind_some]
    exact ih hrest

/-- The times with the source that asks for them. -/
def requests (j : Nat) (times : List Nat) : List (Nat × UInt64) :=
  times.map fun time => (j, UInt64.ofNat time)

theorem registerOthers_view {l l' : EventList Nat} {i j : Nat} {times : List Nat} (hne : j ≠ i)
    (htimes : ∀ time ∈ times, time < 2 ^ 64) (h : l.registerAt j times = some l') :
    (l.view i).registerOthers (requests j times) = some (l'.view i) := by
  induction times generalizing l with
  | nil =>
    cases h
    rfl
  | cons time rest ih =>
    obtain ⟨l₁, h₁, hrest⟩ := Option.bind_eq_some_iff.mp h
    obtain ⟨htime, hlater⟩ := List.forall_mem_cons.mp htimes
    have hmap := sourceIsPending_mapSrc (f := seenBy i) l j time
    rw [h₁, Option.map_some, seenBy_ne hne] at hmap
    rw [requests, List.map_cons, registerOthers, UInt64.toNat_ofNat_of_lt' htime, view, hmap,
      Option.bind_some]
    exact ih hlater hrest

theorem registerOthers_append {l l₁ l₂ : EventList Source} {xs ys : List (Nat × UInt64)}
    (hx : l.registerOthers xs = some l₁) (hy : l₁.registerOthers ys = some l₂) :
    l.registerOthers (xs ++ ys) = some l₂ := by
  induction xs generalizing l with
  | nil =>
    cases hx
    exact hy
  | cons x xs ih =>
    obtain ⟨l', h', hrest⟩ := Option.bind_eq_some_iff.mp hx
    rw [List.cons_append, registerOthers, h', Option.bind_some]
    exact ih hrest

theorem now_registerAt {l l' : EventList Nat} {i : Nat} {times : List Nat}
    (h : l.registerAt i times = some l') : l'.now = l.now := by
  induction times generalizing l with
  | nil =>
    cases h
    rfl
  | cons time rest ih =>
    obtain ⟨l₁, h₁, hrest⟩ := Option.bind_eq_some_iff.mp h
    rw [ih hrest]
    simp only [sourceIsPending] at h₁
    split_ifs at h₁
    · cases h₁
      rfl
    · cases h₁
      rfl

end EventList

end Htsim
end DatacenterNetworking
