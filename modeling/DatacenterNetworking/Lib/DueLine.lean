/-
  DatacenterNetworking.Lib.DueLine

  A line whose elements leave from the front, each at a time that is fixed when it
  enters.  `left` is the history of those that have left, with the times at which
  they did.

  As long as nobody enters with a time before that of the last one (`Ok.enter`) and
  time does not pass the front (`Ok.wait`), everyone leaves in order and on time:
  what entered is what has left, then the line (`entered_leave`).
-/

import Mathlib.Data.List.Sort

namespace DatacenterNetworking

/-- A line at the time `now`, the front first. -/
structure DueLine (α : Type*) where
  now : Nat
  line : List (Nat × α)
  left : List (Nat × α)

namespace DueLine

variable {α : Type*}

/-- Nobody has entered yet. -/
def empty : DueLine α where
  now := 0
  line := []
  left := []

/-- `a` goes to the end of the line, due at `due`. -/
def enter (s : DueLine α) (due : Nat) (a : α) : DueLine α :=
  { s with line := s.line ++ [(due, a)] }

/-- The front leaves, at its time. -/
def leave (s : DueLine α) : DueLine α :=
  match s.line with
  | [] => s
  | e :: rest => { now := e.1, line := rest, left := s.left ++ [e] }

/-- Time passes. -/
def wait (s : DueLine α) (t : Nat) : DueLine α := { s with now := t }

/-- Everyone who entered, in order, with their times. -/
def entered (s : DueLine α) : List (Nat × α) := s.left ++ s.line

/-- The times are in order, and now is between those of the past and the future. -/
structure Ok (s : DueLine α) : Prop where
  sorted : s.entered.Pairwise fun a b => a.1 ≤ b.1
  past : ∀ e ∈ s.left, e.1 ≤ s.now
  future : ∀ e ∈ s.line, s.now ≤ e.1

variable {s : DueLine α}

@[simp] theorem entered_enter (s : DueLine α) (due : Nat) (a : α) :
    (s.enter due a).entered = s.entered ++ [(due, a)] :=
  (List.append_assoc _ _ _).symm

@[simp] theorem entered_leave (s : DueLine α) : s.leave.entered = s.entered := by
  simp only [leave, entered]
  cases hline : s.line with
  | nil => rw [hline]
  | cons e rest => simp

@[simp] theorem entered_wait (s : DueLine α) (t : Nat) : (s.wait t).entered = s.entered := rfl

theorem leave_of_line {e : Nat × α} {rest : List (Nat × α)} (h : s.line = e :: rest) :
    s.leave = { now := e.1, line := rest, left := s.left ++ [e] } := by
  simp only [leave, h]

theorem Ok.empty : (empty : DueLine α).Ok where
  sorted := List.Pairwise.nil
  past := fun _ he => absurd he List.not_mem_nil
  future := fun _ he => absurd he List.not_mem_nil

theorem Ok.enter (h : s.Ok) {due : Nat} (hnow : s.now ≤ due) (hlast : ∀ e ∈ s.line, e.1 ≤ due)
    (a : α) : (s.enter due a).Ok where
  sorted := by
    rw [entered_enter]
    refine List.pairwise_append.mpr ⟨h.sorted, List.pairwise_singleton _ _, fun x hx y hy => ?_⟩
    rw [List.mem_singleton.mp hy]
    rcases List.mem_append.mp hx with hleft | hline
    · exact (h.past x hleft).trans hnow
    · exact hlast x hline
  past := h.past
  future := fun e he => by
    rcases List.mem_append.mp he with hline | hnew
    · exact h.future e hline
    · rw [List.mem_singleton.mp hnew]
      exact hnow

theorem Ok.leave (h : s.Ok) : s.leave.Ok := by
  -- the front of the line is due, and everything behind it later
  cases hline : s.line with
  | nil =>
    have hsame : s.leave = s := by simp only [DueLine.leave, hline]
    rw [hsame]
    exact h
  | cons e rest =>
    obtain ⟨-, hsorted, -⟩ := List.pairwise_append.mp h.sorted
    rw [hline] at hsorted
    have hnow := h.future e (hline ▸ List.mem_cons_self)
    rw [leave_of_line hline]
    refine ⟨?_, fun x hx => ?_, (List.pairwise_cons.mp hsorted).1⟩
    · have hentered := h.sorted
      rw [← entered_leave, leave_of_line hline] at hentered
      exact hentered
    · rcases List.mem_append.mp hx with hleft | hfront
      · exact (h.past x hleft).trans hnow
      · rw [List.mem_singleton.mp hfront]

theorem Ok.wait (h : s.Ok) {t : Nat} (hnow : s.now ≤ t) (hfront : ∀ e ∈ s.line.head?, t ≤ e.1) :
    (s.wait t).Ok where
  sorted := h.sorted
  past := fun e he => (h.past e he).trans hnow
  future := fun e he => by
    obtain ⟨-, hsorted, -⟩ := List.pairwise_append.mp h.sorted
    -- the line is sorted, so the front bounds the wait
    cases hline : s.line with
    | nil =>
      rw [show (s.wait t).line = s.line from rfl, hline] at he
      cases he
    | cons x rest =>
      rw [show (s.wait t).line = s.line from rfl, hline] at he
      rw [hline] at hsorted hfront
      have hx := hfront x rfl
      rcases List.mem_cons.mp he with heq | hrest
      · rw [heq]
        exact hx
      · exact hx.trans ((List.pairwise_cons.mp hsorted).1 e hrest)

/-- Those who have left are the first who entered. -/
theorem left_eq_take (s : DueLine α) : s.left = s.entered.take s.left.length :=
  (List.take_left' rfl).symm

/-- The line is the others. -/
theorem line_eq_drop (s : DueLine α) : s.line = s.entered.drop s.left.length :=
  (List.drop_left' rfl).symm

end DueLine
end DatacenterNetworking
