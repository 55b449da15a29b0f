/-
  DatacenterNetworking.Lib.Lindley

  A server that takes jobs in the order they arrive and needs `r` units of time for a
  unit of size.  A job is its time of arrival and its size; `finish` is when the last
  of them is done, by the recursion of Lindley.

  A stream conforms to the rate `1/r` with tolerance `B` if in no stretch of it the
  work exceeds the time that passes by more than `B` (`Conforms`).

    * `finish_le_iff`    — the server is done by `c` iff it would be had it started with
      any one of the jobs: its longest busy period decides;
    * `finish_eq_busy`   — and that period is one of work without a pause;
    * `conforms_concat`  — conformance is what a server of that rate measures: the new job
      is done within `B` of its arrival;
    * `Conforms.faster`  — a faster server keeps a stream with bursts of `b` waiting for
      no longer than it needs for `b`;
    * `Conforms.delayed` — jobs that are delayed by at most `D` conform with tolerance
      `B + D`.
-/

import Mathlib.Algebra.Order.Ring.Nat
import Mathlib.Data.List.Forall2
import Mathlib.Data.List.Induction
import Mathlib.Data.List.Infix

namespace DatacenterNetworking
namespace Lindley

/-- When the last job is done, if the server is free from `d` on. -/
def finish (r d : Nat) : List (Nat × Nat) → Nat
  | [] => d
  | (a, size) :: rest => finish r (max a d + size * r) rest

/-- The sizes together. -/
def volume (l : List (Nat × Nat)) : Nat := (l.map Prod.snd).sum

/-- In every stretch of the stream, from a job to a later one, at most `B` more work arrives
    than time passes. -/
def Conforms (r B : Nat) (l : List (Nat × Nat)) : Prop :=
  ∀ seg, seg <:+: l → ∀ x ∈ seg.head?, ∀ y ∈ seg.getLast?, x.1 + volume seg * r ≤ y.1 + B

variable {r B d : Nat} {l : List (Nat × Nat)}

@[simp] theorem volume_nil : volume [] = 0 := rfl

@[simp] theorem volume_cons (x : Nat × Nat) (l : List (Nat × Nat)) :
    volume (x :: l) = x.2 + volume l := by
  simp [volume]

@[simp] theorem volume_append (l l' : List (Nat × Nat)) :
    volume (l ++ l') = volume l + volume l' := by
  simp [volume]

/-! ## The last job -/

theorem finish_append (r d : Nat) (l l' : List (Nat × Nat)) :
    finish r d (l ++ l') = finish r (finish r d l) l' := by
  induction l generalizing d with
  | nil => rfl
  | cons x rest ih => exact ih _

/-- The server does one job at a time. -/
theorem add_volume_le_finish (r d : Nat) (l : List (Nat × Nat)) :
    d + volume l * r ≤ finish r d l := by
  induction l generalizing d with
  | nil => simp [finish]
  | cons x rest ih =>
    have hrest := ih (max x.1 d + x.2 * r)
    have hd : d ≤ max x.1 d := Nat.le_max_right _ _
    rw [finish, volume_cons, Nat.add_mul]
    omega

/-- Jobs that are there before the server is free wait for nothing else. -/
theorem finish_of_le (h : ∀ x ∈ l, x.1 ≤ d) : finish r d l = d + volume l * r := by
  induction l generalizing d with
  | nil => simp [finish]
  | cons x rest ih =>
    obtain ⟨hx, hrest⟩ := List.forall_mem_cons.mp h
    rw [finish, Nat.max_eq_right hx, ih fun y hy => (hrest y hy).trans (Nat.le_add_right _ _),
      volume_cons, Nat.add_mul]
    omega

/-- The busy period that ends with the last job began with one of them, or the server was never
    free. -/
theorem finish_le_iff {c : Nat} : finish r d l ≤ c ↔
    d + volume l * r ≤ c ∧
      ∀ x rest, x :: rest <:+ l → x.1 + volume (x :: rest) * r ≤ c := by
  induction l generalizing d with
  | nil => simp [finish]
  | cons j rest ih =>
    have hvol : volume (j :: rest) * r = j.2 * r + volume rest * r := by
      rw [volume_cons, Nat.add_mul]
    rw [finish, ih]
    constructor
    · rintro ⟨hall, hsuffix⟩
      have hmax := Nat.le_max_left j.1 d
      have hmax' := Nat.le_max_right j.1 d
      refine ⟨by omega, fun x suf hx => ?_⟩
      rcases List.suffix_cons_iff.mp hx with heq | hx
      · cases heq
        omega
      · exact hsuffix x suf hx
    · rintro ⟨hall, hsuffix⟩
      have hj := hsuffix j rest List.suffix_rfl
      refine ⟨by rcases Nat.le_total j.1 d with h | h <;> simp only [h, Nat.max_eq_left,
        Nat.max_eq_right] <;> omega, fun x suf hx => ?_⟩
      exact hsuffix x suf (hx.trans (List.suffix_cons j rest))

/-- The busy period that ends with the last job: it begins with one that did not have to wait, and
    the server works on all from there without a pause. -/
theorem finish_eq_busy (r : Nat) (hl : l ≠ []) : ∃ pre x rest, l = pre ++ x :: rest ∧
    finish r 0 pre ≤ x.1 ∧ finish r 0 l = x.1 + volume (x :: rest) * r := by
  induction l using List.reverseRecOn with
  | nil => exact absurd rfl hl
  | append_singleton l j ih =>
    by_cases hfree : finish r 0 l ≤ j.1
    · refine ⟨l, j, [], rfl, hfree, ?_⟩
      rw [finish_append, finish, finish, Nat.max_eq_left hfree, volume_cons, volume_nil,
        Nat.add_zero]
    · cases l with
      | nil => exact absurd (Nat.zero_le _) hfree
      | cons y l =>
        obtain ⟨pre, x, rest, hsplit, hpre, hfin⟩ := ih (List.cons_ne_nil y l)
        refine ⟨pre, x, rest ++ [j], ?_, hpre, ?_⟩
        · rw [hsplit, List.append_assoc, List.cons_append]
        · rw [finish_append, finish, finish, Nat.max_eq_right (Nat.le_of_not_le hfree), hfin]
          simp only [volume_cons, volume_append, volume_nil, Nat.add_zero, Nat.add_mul]
          omega

/-- The jobs behind one that is not done by `now` are done their size later. -/
theorem volume_le_of_finish {now b : Nat} {before after : List (Nat × Nat)} {x : Nat × Nat}
    (hr : 0 < r) (hnow : now ≤ finish r d (before ++ [x]))
    (hall : finish r d (before ++ x :: after) ≤ now + b * r) : volume after ≤ b := by
  have hsplit : before ++ x :: after = (before ++ [x]) ++ after := by simp
  rw [hsplit, finish_append] at hall
  have hafter := add_volume_le_finish r (finish r d (before ++ [x])) after
  have hle : volume after * r ≤ b * r := by omega
  exact Nat.le_of_mul_le_mul_right hle hr

/-! ## Streams that conform -/

theorem conforms_nil : Conforms r B [] := by
  intro seg hseg x hx
  rw [List.infix_nil.mp hseg] at hx
  cases hx

theorem Conforms.of_infix {l' : List (Nat × Nat)} (h : Conforms r B l) (hl : l' <:+: l) :
    Conforms r B l' :=
  fun seg hseg => h seg (hseg.trans hl)

/-- A stream is measured job by job, by a server of its rate. -/
theorem conforms_concat {j : Nat × Nat} :
    Conforms r B (l ++ [j]) ↔ Conforms r B l ∧ finish r 0 (l ++ [j]) ≤ j.1 + B := by
  have hlast : ∀ x rest, x :: rest <:+ l ++ [j] → (x :: rest).getLast? = some j := by
    rintro x rest ⟨pre, hpre⟩
    have hgl := congrArg List.getLast? hpre
    rw [List.getLast?_append_cons, List.getLast?_concat] at hgl
    exact hgl
  constructor
  · intro h
    refine ⟨h.of_infix (List.prefix_append l [j]).isInfix, finish_le_iff.mpr ⟨?_, ?_⟩⟩
    · -- the stretch that is the whole stream
      obtain ⟨x, rest, hl⟩ := List.exists_cons_of_ne_nil (List.concat_ne_nil j l)
      have hsuf : x :: rest <:+ l ++ [j] := by rw [hl]
      have hwhole := h _ hsuf.isInfix x rfl j (hlast x rest hsuf)
      rw [hl]
      omega
    · intro x rest hsuf
      exact h _ hsuf.isInfix x rfl j (hlast x rest hsuf)
  · rintro ⟨h, hfinish⟩ seg hseg x hx y hy
    obtain ⟨-, hsuffix⟩ := finish_le_iff.mp hfinish
    rcases List.infix_concat_iff.mp hseg with hsuf | hinfix
    · cases seg with
      | nil => cases hx
      | cons x' rest =>
        cases hx
        rw [hlast x rest hsuf] at hy
        cases hy
        exact hsuffix x rest hsuf
    · exact h seg hinfix x hx y hy

/-- The first and the last time of a stretch are in order. -/
theorem head_le_getLast {seg : List (Nat × Nat)} (hsorted : seg.Pairwise fun a b => a.1 ≤ b.1)
    {x y : Nat × Nat} (hx : x ∈ seg.head?) (hy : y ∈ seg.getLast?) : x.1 ≤ y.1 := by
  cases seg with
  | nil => cases hx
  | cons x' rest =>
    cases hx
    rcases List.mem_cons.mp (List.mem_of_mem_getLast? hy) with heq | hrest
    · rw [heq]
    · exact (List.pairwise_cons.mp hsorted).1 y hrest

/-- With bursts of `b` at the rate `1/r`, a server that is at least as fast needs no longer than
    for `b`. -/
theorem Conforms.faster {p b : Nat} (hsorted : l.Pairwise fun a b => a.1 ≤ b.1) (hp : p ≤ r)
    (h : Conforms r (b * r) l) : Conforms p (b * p) l := by
  intro seg hseg x hx y hy
  have hxy := head_le_getLast (hsorted.sublist hseg.sublist) hx hy
  have hseg := h seg hseg x hx y hy
  rcases Nat.le_total (volume seg) b with hvol | hvol
  · have hmul := Nat.mul_le_mul_right p hvol
    omega
  · -- what exceeds the burst came at the rate
    obtain ⟨k, hk⟩ := Nat.exists_eq_add_of_le hvol
    have hkp := Nat.mul_le_mul_left k hp
    rw [hk, Nat.add_mul] at hseg ⊢
    omega

theorem Conforms.finish_le {y : Nat × Nat} (h : Conforms r B l) (hy : y ∈ l.getLast?) :
    finish r 0 l ≤ y.1 + B := by
  have hl : l = l.dropLast ++ [y] := (List.dropLast_append_getLast? y hy).symm
  rw [hl] at h ⊢
  exact (conforms_concat.mp h).2

/-- Jobs with the same sizes, each later than its counterpart by at most `D`. -/
def Delayed (D : Nat) : List (Nat × Nat) → List (Nat × Nat) → Prop :=
  List.Forall₂ fun x y => y.2 = x.2 ∧ x.1 ≤ y.1 ∧ y.1 ≤ x.1 + D

theorem Delayed.volume_eq {D : Nat} {l l' : List (Nat × Nat)} (h : Delayed D l l') :
    volume l' = volume l := by
  induction h with
  | nil => rfl
  | cons hxy _ ih => rw [volume_cons, volume_cons, ih, hxy.1]

theorem Delayed.head {D : Nat} {l l' : List (Nat × Nat)} (h : Delayed D l l') {y : Nat × Nat}
    (hy : y ∈ l'.head?) : ∃ x ∈ l.head?, y.1 ≤ x.1 + D := by
  cases h with
  | nil => cases hy
  | cons hxy _ =>
    cases hy
    exact ⟨_, rfl, hxy.2.2⟩

theorem Delayed.last {D : Nat} {l l' : List (Nat × Nat)} (h : Delayed D l l') {y : Nat × Nat}
    (hy : y ∈ l'.getLast?) : ∃ x ∈ l.getLast?, x.1 ≤ y.1 := by
  rw [List.getLast?_eq_head?_reverse] at hy ⊢
  have hrev := List.forall₂_reverse_iff.mpr h
  generalize l.reverse = m, l'.reverse = m' at hrev hy
  cases hrev with
  | nil => cases hy
  | cons hxy _ =>
    cases hy
    exact ⟨_, rfl, hxy.2.1⟩

/-- A delay of at most `D` adds as much to the tolerance. -/
theorem Conforms.delayed {D : Nat} {l' : List (Nat × Nat)} (h : Conforms r B l)
    (hdelay : Delayed D l l') : Conforms r (B + D) l' := by
  rintro seg ⟨pre, post, rfl⟩ x hx y hy
  -- the same stretch of `l`
  have hpre := List.forall₂_take_append l (pre ++ seg) post hdelay
  have hstretch : Delayed D ((l.take (pre ++ seg).length).drop pre.length) seg :=
    List.forall₂_drop_append _ pre seg hpre
  have hinfix : (l.take (pre ++ seg).length).drop pre.length <:+: l :=
    (List.drop_suffix _ _).isInfix.trans (List.take_prefix _ _).isInfix
  obtain ⟨x₀, hx₀, hfirst⟩ := hstretch.head hx
  obtain ⟨y₀, hy₀, hlast⟩ := hstretch.last hy
  have hconf := h _ hinfix x₀ hx₀ y₀ hy₀
  rw [hstretch.volume_eq]
  omega

end Lindley
end DatacenterNetworking
