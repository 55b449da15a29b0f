/-
  DatacenterNetworking.Lib.Walk

  Walks in a directed graph, as lists of links.

    * `IsWalk.reverse`      — the opposite links lead back;
    * `IsWalk.potential_le` — a potential that no link lowers by more than one bounds
      the length of a walk from below;
    * `IsWalk.tight`        — a walk as short as the potential allows lowers it by one
      with each link.
-/

import Mathlib.Data.List.Basic

namespace DatacenterNetworking

/-- A directed graph with vertices `V` and links `L`. -/
structure LinkGraph (V : Type*) (L : Type*) where
  tail : L → V
  head : L → V

namespace LinkGraph

variable {V L : Type*} {G : LinkGraph V L}

/-- The links lead from one vertex to another, one behind the other. -/
def IsWalk (G : LinkGraph V L) : V → List L → V → Prop
  | u, [], v => u = v
  | u, l :: ls, v => G.tail l = u ∧ G.IsWalk (G.head l) ls v

/-- No walk between the two is shorter. -/
def Shortest (G : LinkGraph V L) (u : V) (ls : List L) (v : V) : Prop :=
  G.IsWalk u ls v ∧ ∀ ls', G.IsWalk u ls' v → ls.length ≤ ls'.length

theorem isWalk_append {u w : V} {ls ls' : List L} :
    G.IsWalk u (ls ++ ls') w ↔ ∃ v, G.IsWalk u ls v ∧ G.IsWalk v ls' w := by
  induction ls generalizing u with
  | nil =>
    constructor
    · intro h
      exact ⟨u, rfl, h⟩
    · rintro ⟨v, rfl, h⟩
      exact h
  | cons l ls ih =>
    constructor
    · rintro ⟨htail, h⟩
      obtain ⟨v, hv, hw⟩ := ih.mp h
      exact ⟨v, ⟨htail, hv⟩, hw⟩
    · rintro ⟨v, ⟨htail, hv⟩, hw⟩
      exact ⟨htail, ih.mpr ⟨v, hv, hw⟩⟩

/-- Back over the opposite links. -/
theorem IsWalk.reverse {op : L → L} (htail : ∀ l, G.tail (op l) = G.head l)
    (hhead : ∀ l, G.head (op l) = G.tail l) {u v : V} {ls : List L} (h : G.IsWalk u ls v) :
    G.IsWalk v (ls.reverse.map op) u := by
  induction ls generalizing u with
  | nil => exact h.symm
  | cons l ls ih =>
    rw [List.reverse_cons, List.map_append]
    refine isWalk_append.mpr ⟨G.head l, ih h.2, ?_⟩
    exact ⟨htail l, (hhead l).trans h.1⟩

variable {d : V → Nat} (hd : ∀ l, d (G.tail l) ≤ d (G.head l) + 1)
include hd

theorem IsWalk.potential_le {u v : V} {ls : List L} (h : G.IsWalk u ls v) :
    d u ≤ ls.length + d v := by
  induction ls generalizing u with
  | nil =>
    rw [show u = v from h, List.length_nil]
    omega
  | cons l ls ih =>
    obtain ⟨htail, hrest⟩ := h
    have hlink := hd l
    have hle := ih hrest
    rw [htail] at hlink
    rw [List.length_cons]
    omega

/-- The first link of a walk that is as short as it can be. -/
theorem IsWalk.tight {u v : V} {l : L} {ls : List L} (h : G.IsWalk u (l :: ls) v)
    (hlen : d u = (l :: ls).length + d v) :
    G.tail l = u ∧ d (G.head l) = ls.length + d v ∧ G.IsWalk (G.head l) ls v := by
  obtain ⟨htail, hrest⟩ := h
  have hlink := hd l
  have hle := hrest.potential_le hd
  rw [htail] at hlink
  rw [List.length_cons] at hlen
  exact ⟨htail, by omega, hrest⟩

/-- A walk whose length is the potential of its start is a shortest one. -/
theorem shortest_of_length {u v : V} {ls : List L} (h : G.IsWalk u ls v) (hv : d v = 0)
    (hlen : ls.length = d u) : G.Shortest u ls v := by
  refine ⟨h, fun ls' h' => ?_⟩
  have hle := h'.potential_le hd
  omega

end LinkGraph
end DatacenterNetworking
