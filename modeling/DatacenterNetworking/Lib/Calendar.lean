/-
  DatacenterNetworking.Lib.Calendar

  A calendar queue: `n` slots in a circle, one for each of the next `n` rounds.  An
  element of round `r` goes to slot `r % n`; only the slot of the current round is
  served, oldest first; and the round advances when that slot is empty.

  A slot is used again `n` rounds later.  `Placed` says that no slot holds elements of
  two rounds.  `Ok` adds the order of service: elements leave by round, and those of
  one key leave as they arrived, provided a later element of a key never gets an
  earlier round.
-/

import Mathlib.Data.List.Basic
import Mathlib.Logic.Function.Basic

namespace DatacenterNetworking

/-- The slots, newest element first, the current round, and what was served, in order. -/
structure Calendar (α : Type*) where
  slots : Nat → List α
  now : Nat
  served : List α

namespace Calendar

variable {α κ : Type*} {n : Nat} {round arrival : α → Nat} {key : α → κ} {c : Calendar α}

/-- A new element in the slot of its round. -/
def insert (n : Nat) (round : α → Nat) (c : Calendar α) (e : α) : Calendar α :=
  { c with slots := Function.update c.slots (round e % n) (e :: c.slots (round e % n)) }

/-- The oldest element of slot `i`, `x`, leaves. -/
def serve (c : Calendar α) (i : Nat) (x : α) : Calendar α :=
  { c with
    slots := Function.update c.slots i (c.slots i).dropLast
    served := c.served ++ [x] }

/-- The next round. -/
def advance (c : Calendar α) : Calendar α := { c with now := c.now + 1 }

theorem mem_insert {e x : α} {i : Nat} (hx : x ∈ (c.insert n round e).slots i) :
    (x = e ∧ i = round e % n) ∨ x ∈ c.slots i := by
  replace hx : x ∈ Function.update c.slots (round e % n) (e :: c.slots (round e % n)) i := hx
  by_cases hi : i = round e % n
  · rw [hi, Function.update_self] at hx
    rcases List.mem_cons.mp hx with hxe | hx
    · exact Or.inl ⟨hxe, hi⟩
    · rw [hi]
      exact Or.inr hx
  · rw [Function.update_of_ne hi] at hx
    exact Or.inr hx

theorem mem_serve {x y : α} {i k : Nat} (hx : x ∈ (c.serve k y).slots i) :
    (i = k ∧ x ∈ (c.slots k).dropLast) ∨ (i ≠ k ∧ x ∈ c.slots i) := by
  replace hx : x ∈ Function.update c.slots k (c.slots k).dropLast i := hx
  by_cases hi : i = k
  · rw [hi, Function.update_self] at hx
    exact Or.inl ⟨hi, hx⟩
  · rw [Function.update_of_ne hi] at hx
    exact Or.inr ⟨hi, hx⟩

theorem mem_of_mem_serve {x y : α} {i k : Nat} (hx : x ∈ (c.serve k y).slots i) :
    x ∈ c.slots i := by
  rcases mem_serve hx with ⟨rfl, hx⟩ | ⟨-, hx⟩
  · exact List.dropLast_subset _ hx
  · exact hx

/-! ## Slots and rounds -/

/-- Every element is in the slot of its round, and its round is one of the next `n`. -/
def Placed (n : Nat) (round : α → Nat) (c : Calendar α) : Prop :=
  ∀ i, ∀ e ∈ c.slots i, i = round e % n ∧ c.now ≤ round e ∧ round e < c.now + n

/-- Two of `n` consecutive rounds share a slot only if they are equal. -/
theorem eq_of_mod_eq {lo a b : Nat} (ha : lo ≤ a) (ha' : a < lo + n) (hb : lo ≤ b)
    (hb' : b < lo + n) (h : a % n = b % n) : a = b := by
  rcases Nat.le_total a b with hab | hab
  · have hdvd : n ∣ b - a := Nat.dvd_of_mod_eq_zero (Nat.sub_mod_eq_zero_of_mod_eq h.symm)
    have hzero : b - a = 0 := Nat.eq_zero_of_dvd_of_lt hdvd (by omega)
    omega
  · have hdvd : n ∣ a - b := Nat.dvd_of_mod_eq_zero (Nat.sub_mod_eq_zero_of_mod_eq h)
    have hzero : a - b = 0 := Nat.eq_zero_of_dvd_of_lt hdvd (by omega)
    omega

/-- What the current slot holds is of the current round. -/
theorem Placed.round_eq (h : Placed n round c) {e : α} (he : e ∈ c.slots (c.now % n)) :
    round e = c.now := by
  obtain ⟨hslot, hlow, hhigh⟩ := h _ e he
  exact (eq_of_mod_eq (Nat.le_refl _) (by omega) hlow hhigh hslot).symm

/-- An element of the current round is in the current slot. -/
theorem Placed.slot_eq (h : Placed n round c) {i : Nat} {e : α} (he : e ∈ c.slots i)
    (hround : round e ≤ c.now) : i = c.now % n := by
  obtain ⟨hslot, hlow, -⟩ := h i e he
  rw [hslot, show round e = c.now by omega]

theorem Placed.insert (h : Placed n round c) {e : α} (hlow : c.now ≤ round e)
    (hhigh : round e < c.now + n) : Placed n round (c.insert n round e) := by
  intro i x hx
  rcases mem_insert hx with ⟨rfl, hi⟩ | hx
  · exact ⟨hi, hlow, hhigh⟩
  · exact h i x hx

theorem Placed.serve (h : Placed n round c) (k : Nat) (y : α) : Placed n round (c.serve k y) :=
  fun i x hx => h i x (mem_of_mem_serve hx)

/-- The current slot must be empty when the round advances: it is next used a lap later. -/
theorem Placed.advance (h : Placed n round c) (hempty : c.slots (c.now % n) = []) :
    Placed n round c.advance := by
  intro i x hx
  obtain ⟨hslot, hlow, hhigh⟩ := h i x hx
  have hne : c.now ≠ round x := by
    intro heq
    replace hx : x ∈ c.slots i := hx
    rw [hslot, ← heq, hempty] at hx
    exact List.not_mem_nil hx
  refine ⟨hslot, ?_, ?_⟩
  · show c.now + 1 ≤ round x
    omega
  · show round x < c.now + 1 + n
    omega

/-! ## The order of service -/

/-- A calendar queue on which `next` elements arrived so far, numbered in that order. -/
structure Ok (n : Nat) (round arrival : α → Nat) (key : α → κ) (next : Nat) (c : Calendar α) :
    Prop where
  placed : Placed n round c
  /-- A slot is in order of arrival. -/
  fifo : ∀ i, (c.slots i).Pairwise fun a b => arrival b < arrival a
  /-- A later element of a key has no earlier round. -/
  mono : ∀ i j a b, a ∈ c.slots i → b ∈ c.slots j → key a = key b → arrival a ≤ arrival b →
    round a ≤ round b
  fresh : ∀ i, ∀ e ∈ c.slots i, arrival e < next
  fresh_served : ∀ d ∈ c.served, arrival d < next
  /-- Nothing was served ahead of its round. -/
  past : ∀ d ∈ c.served, round d ≤ c.now
  older : ∀ d ∈ c.served, ∀ i, ∀ e ∈ c.slots i, key d = key e → arrival d < arrival e
  inOrder : c.served.Pairwise fun a b =>
    round a ≤ round b ∧ (key a = key b → arrival a < arrival b)

section Ok

variable {next : Nat}

theorem Ok.insert (h : Ok n round arrival key next c) {e : α} (hlow : c.now ≤ round e)
    (hhigh : round e < c.now + n) (harrival : arrival e = next)
    (hmono : ∀ i, ∀ a ∈ c.slots i, key a = key e → round a ≤ round e) :
    Ok n round arrival key (next + 1) (c.insert n round e) where
  placed := h.placed.insert hlow hhigh
  fifo := fun i => by
    show (Function.update c.slots (round e % n) (e :: c.slots (round e % n)) i).Pairwise _
    by_cases hi : i = round e % n
    · rw [hi, Function.update_self]
      refine List.pairwise_cons.mpr ⟨fun b hb => ?_, h.fifo _⟩
      rw [harrival]
      exact h.fresh _ b hb
    · rw [Function.update_of_ne hi]
      exact h.fifo i
  -- four cases, by which of the two elements is the new one
  mono := fun i j a b ha hb hkey hle => by
    rcases mem_insert ha with ⟨hae, -⟩ | ha'
    · rcases mem_insert hb with ⟨hbe, -⟩ | hb'
      · have heq : a = b := hae.trans hbe.symm
        subst heq
        exact Nat.le_refl _
      · -- nothing arrived after the new element
        have hlt := h.fresh j b hb'
        rw [hae] at hle
        omega
    · rcases mem_insert hb with ⟨hbe, -⟩ | hb'
      · rw [hbe] at hkey ⊢
        exact hmono i a ha' hkey
      · exact h.mono i j a b ha' hb' hkey hle
  fresh := fun i x hx => by
    rcases mem_insert hx with ⟨rfl, -⟩ | hx
    · exact Nat.lt_succ_of_le (Nat.le_of_eq harrival)
    · exact Nat.lt_succ_of_lt (h.fresh i x hx)
  fresh_served := fun d hd => Nat.lt_succ_of_lt (h.fresh_served d hd)
  past := h.past
  older := fun d hd i x hx hkey => by
    rcases mem_insert hx with ⟨rfl, -⟩ | hx
    · rw [harrival]
      exact h.fresh_served d hd
    · exact h.older d hd i x hx hkey
  inOrder := h.inOrder

/-- The oldest element of the current slot is the oldest of its key. -/
theorem Ok.oldest (h : Ok n round arrival key next c) {x : α}
    (hlast : (c.slots (c.now % n)).getLast? = some x) {i : Nat} {e : α}
    (he : e ∈ (c.serve (c.now % n) x).slots i) (hkey : key x = key e) :
    arrival x < arrival e := by
  have hx : x ∈ c.slots (c.now % n) := List.mem_of_getLast? hlast
  rcases mem_serve he with ⟨-, he⟩ | ⟨hi, he⟩
  · -- in the same slot it is the last
    have hfifo := h.fifo (c.now % n)
    rw [← List.dropLast_append_getLast? x hlast] at hfifo
    exact (List.pairwise_append.mp hfifo).2.2 e he x (List.mem_singleton.mpr rfl)
  · -- an older one elsewhere would be of the current round
    by_contra hle
    have hround := h.mono i _ e x he hx hkey.symm (by omega)
    rw [h.placed.round_eq hx] at hround
    exact hi (h.placed.slot_eq he hround)

theorem Ok.serve (h : Ok n round arrival key next c) {x : α}
    (hlast : (c.slots (c.now % n)).getLast? = some x) :
    Ok n round arrival key next (c.serve (c.now % n) x) := by
  have hx : x ∈ c.slots (c.now % n) := List.mem_of_getLast? hlast
  -- nothing is new in the slots; what is new is the last element served
  refine
    { placed := h.placed.serve _ x
      fifo := fun i => ?_
      mono := fun i j a b ha hb => h.mono i j a b (mem_of_mem_serve ha) (mem_of_mem_serve hb)
      fresh := fun i e he => h.fresh i e (mem_of_mem_serve he)
      fresh_served := fun d hd => ?_
      past := fun d hd => ?_
      older := fun d hd i e he hkey => ?_
      inOrder := ?_ }
  · show (Function.update c.slots (c.now % n) (c.slots (c.now % n)).dropLast i).Pairwise _
    by_cases hi : i = c.now % n
    · rw [hi, Function.update_self]
      exact (h.fifo _).sublist (List.dropLast_sublist _)
    · rw [Function.update_of_ne hi]
      exact h.fifo i
  · rcases List.mem_append.mp hd with hd | hd
    · exact h.fresh_served d hd
    · rw [List.mem_singleton.mp hd]
      exact h.fresh _ x hx
  · rcases List.mem_append.mp hd with hd | hd
    · exact h.past d hd
    · rw [List.mem_singleton.mp hd]
      exact Nat.le_of_eq (h.placed.round_eq hx)
  · rcases List.mem_append.mp hd with hd | hd
    · exact h.older d hd i e (mem_of_mem_serve he) hkey
    · rw [List.mem_singleton.mp hd] at hkey ⊢
      exact h.oldest hlast he hkey
  · refine List.pairwise_append.mpr ⟨h.inOrder, List.pairwise_singleton _ _, fun d hd y hy => ?_⟩
    rw [List.mem_singleton.mp hy]
    refine ⟨?_, h.older d hd _ x hx⟩
    rw [h.placed.round_eq hx]
    exact h.past d hd

theorem Ok.advance (h : Ok n round arrival key next c) (hempty : c.slots (c.now % n) = []) :
    Ok n round arrival key next c.advance where
  placed := h.placed.advance hempty
  fifo := h.fifo
  mono := h.mono
  fresh := h.fresh
  fresh_served := h.fresh_served
  past := fun d hd => Nat.le_succ_of_le (h.past d hd)
  older := h.older
  inOrder := h.inOrder

end Ok

end Calendar
end DatacenterNetworking
