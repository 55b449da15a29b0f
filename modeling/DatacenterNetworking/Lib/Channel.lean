/-
  DatacenterNetworking.Lib.Channel

  An unreliable channel: the list of the messages in flight.  Any of them may be
  delivered next (delay and reordering), lost, or duplicated; none is forged, so
  whatever the channel does, its messages are among those it held before.
-/

import Mathlib.Data.List.Basic

namespace DatacenterNetworking

variable {α : Type*}

/-- Deliver message number `i`: the message, and what stays in flight. -/
def deliver (chan : List α) (i : Nat) : Option (α × List α) :=
  chan[i]?.map fun m => (m, chan.eraseIdx i)

/-- What the network may do to a message on its own. -/
inductive Fault where
  | lose (i : Nat)
  | duplicate (i : Nat)
  deriving DecidableEq, Repr

/-- The channel after a fault. -/
def Fault.apply (chan : List α) : Fault → Option (List α)
  | .lose i => chan[i]?.map fun _ => chan.eraseIdx i
  | .duplicate i => chan[i]?.map fun m => m :: chan

/-- A delivered message was in flight, and nothing new is in flight after it. -/
theorem mem_of_deliver {chan chan' : List α} {i : Nat} {m : α}
    (h : deliver chan i = some (m, chan')) : m ∈ chan ∧ ∀ x ∈ chan', x ∈ chan := by
  obtain ⟨m', hm, heq⟩ := Option.map_eq_some_iff.mp h
  cases heq
  exact ⟨List.mem_of_getElem? hm, fun x hx => List.mem_of_mem_eraseIdx hx⟩

/-- No fault puts a new message in flight. -/
theorem mem_of_fault {chan chan' : List α} {f : Fault} (h : f.apply chan = some chan') :
    ∀ x ∈ chan', x ∈ chan := by
  cases f with
  | lose i =>
    obtain ⟨m, -, heq⟩ := Option.map_eq_some_iff.mp h
    cases heq
    exact fun x hx => List.mem_of_mem_eraseIdx hx
  | duplicate i =>
    obtain ⟨m, hm, heq⟩ := Option.map_eq_some_iff.mp h
    cases heq
    intro x hx
    rcases List.mem_cons.mp hx with rfl | hx
    · exact List.mem_of_getElem? hm
    · exact hx

/-! ## Losses -/

/-- The messages with these numbers are lost, one after the other. -/
def loseAll (chan : List α) (numbers : List Nat) : Option (List α) :=
  numbers.foldlM (fun chan i => (Fault.lose i).apply chan) chan

/-- Any part of what is in flight may be what stays. -/
theorem loseAll_of_sublist {kept chan : List α} (h : kept.Sublist chan) :
    ∀ front : List α, ∃ numbers, loseAll (front ++ chan) numbers = some (front ++ kept) := by
  induction h with
  | slnil => exact fun front => ⟨[], rfl⟩
  | @cons kept chan m _ ih =>
    intro front
    obtain ⟨numbers, hkept⟩ := ih front
    have hlost : (Fault.lose front.length).apply (front ++ m :: chan) = some (front ++ chan) := by
      rw [Fault.apply, List.getElem?_append_right (Nat.le_refl _), Nat.sub_self,
        List.eraseIdx_append_of_length_le (Nat.le_refl _), Nat.sub_self]
      rfl
    refine ⟨front.length :: numbers, ?_⟩
    rw [loseAll, List.foldlM_cons, hlost]
    exact hkept
  | @cons_cons kept chan m _ ih =>
    intro front
    obtain ⟨numbers, hkept⟩ := ih (front ++ [m])
    rw [List.append_assoc, List.append_assoc] at hkept
    exact ⟨numbers, hkept⟩

end DatacenterNetworking
