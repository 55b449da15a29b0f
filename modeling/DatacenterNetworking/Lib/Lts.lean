/-
  DatacenterNetworking.Lib.Lts

  Executable labelled transition systems.  A system is a partial step function
  `step : σ → α → Option σ`: the label resolves every outside choice (which
  message is delivered, what a clock or a random generator returns), and `none`
  means the label is not enabled.  A run is a list of labels.

  The rules below package the inductions over runs once:

    * `run_induction`   — a property kept by every step holds after a run
      (`run_induction_labels`: also one that mentions the labels);
    * `Always`/`Along`  — what holds of every state of a run, and what holds of
      every step taken in it (`always_of_along`: from the second to the first);
    * `always_iff_along` — when, step by step, a state property survives exactly
      when a guard holds, the property holds along a run iff the guard does;
    * `run_drift_bound` — an observer that moves with a bounded potential moves
      by a bounded amount.
-/

import Mathlib.Algebra.Order.Group.Abs
import Mathlib.Algebra.Order.Ring.Int
import Mathlib.Data.List.Induction

namespace DatacenterNetworking

/-- A deterministic labelled transition system with states `σ` and labels `α`. -/
structure Lts (σ : Type*) (α : Type*) where
  /-- `step s a = none` when the label `a` is not enabled in `s`. -/
  step : σ → α → Option σ

namespace Lts

variable {σ α : Type*} (M : Lts σ α)

/-- Execute the labels in order; `none` as soon as one is not enabled. -/
def run : σ → List α → Option σ
  | s, [] => some s
  | s, a :: as => (M.step s a).bind fun s' => run s' as

/-- `s` is reached from `s₀` by some run. -/
def Reachable (s₀ s : σ) : Prop := ∃ as, M.run s₀ as = some s

/-- `P` holds of every state the labels visit, the first one included. -/
def Always (P : σ → Prop) : σ → List α → Prop
  | s, [] => P s
  | s, a :: as => P s ∧ ∀ s', M.step s a = some s' → Always P s' as

/-- `G` holds of every step taken: of the state before it and its label. -/
def Along (G : σ → α → Prop) : σ → List α → Prop
  | _, [] => True
  | s, a :: as => ∀ s', M.step s a = some s' → G s a ∧ Along G s' as

variable {M}

@[simp] theorem run_nil (s : σ) : M.run s [] = some s := rfl

@[simp] theorem run_cons (s : σ) (a : α) (as : List α) :
    M.run s (a :: as) = (M.step s a).bind fun s' => M.run s' as := rfl

/-- A run that starts with `a` takes the step first. -/
theorem run_cons_eq_some {s s'' : σ} {a : α} {as : List α} :
    M.run s (a :: as) = some s'' ↔ ∃ s', M.step s a = some s' ∧ M.run s' as = some s'' := by
  rw [run_cons, Option.bind_eq_some_iff]

/-- A run of a concatenation is the two runs in sequence. -/
theorem run_append (s : σ) (as bs : List α) :
    M.run s (as ++ bs) = (M.run s as).bind fun s' => M.run s' bs := by
  induction as generalizing s with
  | nil => rfl
  | cons a as ih =>
    simp only [List.cons_append, run_cons]
    cases M.step s a with
    | none => rfl
    | some s' => exact ih s'

theorem run_one {s t : σ} {a : α} (h : M.step s a = some t) : M.run s [a] = some t := by
  rw [run_cons, h]
  rfl

theorem run_trans {s t u : σ} {as bs : List α} (has : M.run s as = some t)
    (hbs : M.run t bs = some u) : M.run s (as ++ bs) = some u := by
  rw [run_append, has]
  exact hbs

theorem Reachable.refl (s : σ) : M.Reachable s s := ⟨[], rfl⟩

theorem Reachable.tail {s₀ s s' : σ} {a : α} (h : M.Reachable s₀ s)
    (hstep : M.step s a = some s') : M.Reachable s₀ s' := by
  obtain ⟨as, hrun⟩ := h
  refine ⟨as ++ [a], ?_⟩
  rw [run_append, hrun, Option.bind_some, run_cons, hstep]
  rfl

/-- A property that every step keeps holds at the end of a run. -/
theorem run_induction {I : σ → Prop} (hstep : ∀ s a s', I s → M.step s a = some s' → I s')
    {s s' : σ} {as : List α} (h₀ : I s) (hrun : M.run s as = some s') : I s' := by
  induction as generalizing s with
  | nil =>
    cases hrun
    exact h₀
  | cons a as ih =>
    obtain ⟨s₁, hs₁, hrest⟩ := run_cons_eq_some.mp hrun
    exact ih (hstep s a s₁ h₀ hs₁) hrest

/-- An invariant of the state together with the labels that led to it. -/
theorem run_induction_labels {I : List α → σ → Prop}
    (hstep : ∀ as s a s', I as s → M.step s a = some s' → I (as ++ [a]) s')
    {s s' : σ} {as : List α} (h₀ : I [] s) (hrun : M.run s as = some s') : I as s' := by
  induction as using List.reverseRecOn generalizing s' with
  | nil =>
    cases hrun
    exact h₀
  | append_singleton as a ih =>
    rw [run_append] at hrun
    obtain ⟨s₁, hs₁, hlast⟩ := Option.bind_eq_some_iff.mp hrun
    obtain ⟨s₂, hs₂, hnil⟩ := run_cons_eq_some.mp hlast
    cases hnil
    exact hstep as s₁ a s' (ih hs₁) hs₂

/-- Every reachable state satisfies an inductive invariant. -/
theorem Reachable.invariant {I : σ → Prop} {s₀ s : σ} (h : M.Reachable s₀ s) (h₀ : I s₀)
    (hstep : ∀ s a s', I s → M.step s a = some s' → I s') : I s := by
  obtain ⟨as, hrun⟩ := h
  exact run_induction hstep h₀ hrun

/-- A property of every visited state holds of the first one. -/
theorem Always.head {P : σ → Prop} {s : σ} {as : List α} (h : M.Always P s as) : P s := by
  cases as with
  | nil => exact h
  | cons a as => exact h.1

/-- A property of every visited state holds of the last one. -/
theorem Always.last {P : σ → Prop} {s s' : σ} {as : List α} (h : M.Always P s as)
    (hrun : M.run s as = some s') : P s' := by
  induction as generalizing s with
  | nil =>
    cases hrun
    exact h
  | cons a as ih =>
    obtain ⟨s₁, hs₁, hrest⟩ := run_cons_eq_some.mp hrun
    exact ih (h.2 s₁ hs₁) hrest

/-- An invariant that needs a property `P` of the states around each step holds at the
    end of every run whose states all satisfy `P`. -/
theorem run_induction_always {I P : σ → Prop}
    (hstep : ∀ s a s', I s → P s → P s' → M.step s a = some s' → I s')
    {s s' : σ} {as : List α} (h₀ : I s) (hP : M.Always P s as) (hrun : M.run s as = some s') :
    I s' := by
  induction as generalizing s with
  | nil =>
    cases hrun
    exact h₀
  | cons a as ih =>
    obtain ⟨s₁, hs₁, hrest⟩ := run_cons_eq_some.mp hrun
    have hP₁ := hP.2 s₁ hs₁
    exact ih (hstep s a s₁ h₀ hP.1 hP₁.head hs₁) hP₁ hrest

/-- An invariant that needs a guard on each step holds at the end of a guarded run. -/
theorem run_induction_along {I : σ → Prop} {G : σ → α → Prop}
    (hstep : ∀ s a s', I s → G s a → M.step s a = some s' → I s')
    {s s' : σ} {as : List α} (h₀ : I s) (hG : M.Along G s as) (hrun : M.run s as = some s') :
    I s' := by
  induction as generalizing s with
  | nil =>
    cases hrun
    exact h₀
  | cons a as ih =>
    obtain ⟨s₁, hs₁, hrest⟩ := run_cons_eq_some.mp hrun
    obtain ⟨hg, hG₁⟩ := hG s₁ hs₁
    exact ih (hstep s a s₁ h₀ hg hs₁) hG₁ hrest

/-- The same for an invariant that speaks of the labels so far. -/
theorem run_induction_labels_along {I : List α → σ → Prop} {G : σ → α → Prop}
    (hstep : ∀ as s a s', I as s → G s a → M.step s a = some s' → I (as ++ [a]) s')
    {s s' : σ} {as : List α} (h₀ : I [] s) (hG : M.Along G s as) (hrun : M.run s as = some s') :
    I as s' := by
  have hfrom : ∀ bs s, I bs s → M.Along G s as → M.run s as = some s' → I (bs ++ as) s' := by
    clear h₀ hG hrun
    induction as with
    | nil =>
      intro bs s h _ hrun
      cases hrun
      rw [List.append_nil]
      exact h
    | cons a as ih =>
      intro bs s h hG hrun
      obtain ⟨s₁, hs₁, hrest⟩ := run_cons_eq_some.mp hrun
      obtain ⟨ha, hG'⟩ := hG s₁ hs₁
      rw [List.append_cons]
      exact ih (bs ++ [a]) s₁ (hstep bs s a s₁ h ha hs₁) hG' hrest
  exact hfrom [] s h₀ hG hrun

/-- A property that an invariant of guarded steps implies holds in every state that a guarded
    run visits. -/
theorem always_of_along {I P : σ → Prop} {G : σ → α → Prop}
    (hstep : ∀ s a s', I s → G s a → M.step s a = some s' → I s') (hP : ∀ s, I s → P s)
    {s : σ} {as : List α} (h₀ : I s) (hG : M.Along G s as) : M.Always P s as := by
  induction as generalizing s with
  | nil => exact hP s h₀
  | cons a as ih =>
    refine ⟨hP s h₀, fun s' hs' => ?_⟩
    obtain ⟨hg, hG'⟩ := hG s' hs'
    exact ih (hstep s a s' h₀ hg hs') hG'

/-- What an invariant of guarded steps gives for each of them holds along a guarded run. -/
theorem along_of_along {I : σ → Prop} {G H : σ → α → Prop}
    (hstep : ∀ s a s', I s → G s a → M.step s a = some s' → I s' ∧ H s a)
    {s : σ} {as : List α} (h₀ : I s) (hG : M.Along G s as) : M.Along H s as := by
  induction as generalizing s with
  | nil => trivial
  | cons a as ih =>
    intro s' hs'
    obtain ⟨hg, hG'⟩ := hG s' hs'
    obtain ⟨hI, hh⟩ := hstep s a s' h₀ hg hs'
    exact ⟨hh, ih hI hG'⟩

/-- Two guards that agree on every step hold along the same runs. -/
theorem along_congr {G H : σ → α → Prop}
    (hGH : ∀ s a s', M.step s a = some s' → (G s a ↔ H s a)) {s : σ} (as : List α) :
    M.Along G s as ↔ M.Along H s as := by
  induction as generalizing s with
  | nil => exact Iff.rfl
  | cons a as ih =>
    exact forall₂_congr fun s' hs' => and_congr (hGH s a s' hs') ih

/-- A guard that holds along a run holds along what comes after a part of it. -/
theorem Along.of_append {G : σ → α → Prop} {s t : σ} {as bs : List α}
    (h : M.Along G s (as ++ bs)) (hrun : M.run s as = some t) : M.Along G t bs := by
  induction as generalizing s with
  | nil =>
    cases hrun
    exact h
  | cons a as ih =>
    obtain ⟨s₁, hs₁, hrest⟩ := run_cons_eq_some.mp hrun
    exact ih (h s₁ hs₁).2 hrest

/-- What every step of the system satisfies holds along a run. -/
theorem along_of_step {G : σ → α → Prop} (hG : ∀ s a s', M.step s a = some s' → G s a) {s : σ}
    (as : List α) : M.Along G s as := by
  induction as generalizing s with
  | nil => trivial
  | cons a as ih =>
    intro s' hs'
    exact ⟨hG s a s' hs', ih⟩

/-- The exact condition of a property of runs that meet `H`.  `J` is an invariant of such
    runs; under it a step from a state satisfying `P` keeps `P` exactly when the guard `G`
    holds.  Then `P` holds of every visited state iff `G` holds of every step taken. -/
theorem always_iff_along_of_along {J P : σ → Prop} {G H : σ → α → Prop}
    (hJ : ∀ s a s', J s → H s a → M.step s a = some s' → J s')
    (hPG : ∀ s a s', J s → P s → H s a → M.step s a = some s' → (P s' ↔ G s a))
    {s : σ} (as : List α) (h₀ : J s) (hP : P s) (hH : M.Along H s as) :
    M.Always P s as ↔ M.Along G s as := by
  -- along the run: what `P` says after a step is what `G` says of it
  induction as generalizing s with
  | nil => exact iff_of_true hP trivial
  | cons a as ih =>
    constructor
    · intro h s' hs'
      obtain ⟨hh, hH'⟩ := hH s' hs'
      have hrest := h.2 s' hs'
      have hP' := hrest.head
      exact ⟨(hPG s a s' h₀ hP hh hs').mp hP',
        (ih (hJ s a s' h₀ hh hs') hP' hH').mp hrest⟩
    · intro h
      refine ⟨hP, fun s' hs' => ?_⟩
      obtain ⟨hh, hH'⟩ := hH s' hs'
      obtain ⟨hg, hrest⟩ := h s' hs'
      have hP' := (hPG s a s' h₀ hP hh hs').mpr hg
      exact (ih (hJ s a s' h₀ hh hs') hP' hH').mpr hrest

/-- The exact condition when nothing is asked of the runs. -/
theorem always_iff_along {J P : σ → Prop} {G : σ → α → Prop}
    (hJ : ∀ s a s', J s → M.step s a = some s' → J s')
    (hPG : ∀ s a s', J s → P s → M.step s a = some s' → (P s' ↔ G s a))
    {s : σ} (as : List α) (h₀ : J s) (hP : P s) :
    M.Always P s as ↔ M.Along G s as :=
  always_iff_along_of_along (H := fun _ _ => True) (fun s a s' hs _ => hJ s a s' hs)
    (fun s a s' hs hp _ => hPG s a s' hs hp) as h₀ hP (along_of_step (fun _ _ _ _ => trivial) as)

/-- The same for a property of states and one of steps.  The guard keeps `J`, which implies
    both; and a step that keeps both meets the guard. -/
theorem always_and_along_iff_of_along {J P : σ → Prop} {E G H : σ → α → Prop}
    (hJP : ∀ s, J s → P s)
    (hkeep : ∀ s a s', J s → H s a → M.step s a = some s' → G s a → J s' ∧ E s a)
    (hneeds : ∀ s a s', J s → H s a → M.step s a = some s' → P s' → E s a → G s a)
    {s : σ} (as : List α) (h₀ : J s) (hH : M.Along H s as) :
    M.Always P s as ∧ M.Along E s as ↔ M.Along G s as := by
  -- along the run: `J` is carried from state to state while the guard `G` holds
  induction as generalizing s with
  | nil => exact iff_of_true ⟨hJP s h₀, trivial⟩ trivial
  | cons a as ih =>
    constructor
    · rintro ⟨hP, hE⟩ s' hs'
      obtain ⟨hh, hH'⟩ := hH s' hs'
      have hrest := hP.2 s' hs'
      obtain ⟨he, hE'⟩ := hE s' hs'
      have hg := hneeds s a s' h₀ hh hs' hrest.head he
      exact ⟨hg, (ih (hkeep s a s' h₀ hh hs' hg).1 hH').mp ⟨hrest, hE'⟩⟩
    · intro hG
      have hrest : ∀ s', M.step s a = some s' →
          E s a ∧ M.Always P s' as ∧ M.Along E s' as := by
        intro s' hs'
        obtain ⟨hh, hH'⟩ := hH s' hs'
        obtain ⟨hg, hG'⟩ := hG s' hs'
        obtain ⟨hJ', he⟩ := hkeep s a s' h₀ hh hs' hg
        exact ⟨he, (ih hJ' hH').mpr hG'⟩
      refine ⟨⟨hJP s h₀, fun s' hs' => (hrest s' hs').2.1⟩, fun s' hs' => ?_⟩
      obtain ⟨he, -, hE'⟩ := hrest s' hs'
      exact ⟨he, hE'⟩

theorem always_and_along_iff {J P : σ → Prop} {E G : σ → α → Prop} (hJP : ∀ s, J s → P s)
    (hkeep : ∀ s a s', J s → M.step s a = some s' → G s a → J s' ∧ E s a)
    (hneeds : ∀ s a s', J s → M.step s a = some s' → P s' → E s a → G s a)
    {s : σ} (as : List α) (h₀ : J s) :
    M.Always P s as ∧ M.Along E s as ↔ M.Along G s as :=
  always_and_along_iff_of_along (H := fun _ _ => True) hJP (fun s a s' hs _ => hkeep s a s' hs)
    (fun s a s' hs _ => hneeds s a s' hs) as h₀ (along_of_step (fun _ _ _ _ => trivial) as)

/-- A decidable guard can be checked by executing the run. -/
instance decidableAlong {G : σ → α → Prop} [∀ s a, Decidable (G s a)] :
    ∀ (s : σ) (as : List α), Decidable (M.Along G s as)
  | _, [] => isTrue trivial
  | s, a :: as =>
    match hstep : M.step s a with
    | none => isTrue fun s' hs' => by rw [hstep] at hs'; cases hs'
    | some s₁ =>
      haveI := decidableAlong (G := G) s₁ as
      decidable_of_iff (G s a ∧ M.Along G s₁ as)
        ⟨fun h s' hs' => by rw [hstep] at hs'; cases hs'; exact h, fun h => h s₁ hstep⟩

/-- A decidable property of states can be checked by executing the run. -/
instance decidableAlways {P : σ → Prop} [∀ s, Decidable (P s)] :
    ∀ (s : σ) (as : List α), Decidable (M.Always P s as)
  | s, [] => inferInstanceAs (Decidable (P s))
  | s, a :: as =>
    match hstep : M.step s a with
    | none =>
      decidable_of_iff (P s)
        ⟨fun h => ⟨h, fun s' hs' => by rw [hstep] at hs'; cases hs'⟩, fun h => h.1⟩
    | some s₁ =>
      haveI := decidableAlways (P := P) s₁ as
      decidable_of_iff (P s ∧ M.Always P s₁ as)
        ⟨fun h => ⟨h.1, fun s' hs' => by rw [hstep] at hs'; cases hs'; exact h.2⟩,
          fun h => ⟨h.1, h.2 s₁ hstep⟩⟩

/-- A property of the labels of a run holds along it. -/
theorem along_of_forall_mem {P : α → Prop} {s : σ} {as : List α} (h : ∀ a ∈ as, P a) :
    M.Along (fun _ a => P a) s as := by
  induction as generalizing s with
  | nil => trivial
  | cons a as ih =>
    intro s' _
    exact ⟨h a List.mem_cons_self, ih fun b hb => h b (List.mem_cons_of_mem _ hb)⟩

/-- A property of every visited state holds before and after every step. -/
theorem Always.along {P : σ → Prop} {s : σ} {as : List α} (h : M.Always P s as) :
    M.Along (fun t a => P t ∧ ∀ t', M.step t a = some t' → P t') s as := by
  induction as generalizing s with
  | nil => trivial
  | cons a as ih =>
    intro s' hs'
    have hrest := h.2 s' hs'
    exact ⟨⟨h.1, fun t' ht' => (h.2 t' ht').head⟩, ih hrest⟩

/-- Two guards that hold along a run hold together. -/
theorem Along.and {G H : σ → α → Prop} {s : σ} {as : List α} (hG : M.Along G s as)
    (hH : M.Along H s as) : M.Along (fun t a => G t a ∧ H t a) s as := by
  induction as generalizing s with
  | nil => trivial
  | cons a as ih =>
    intro s' hs'
    obtain ⟨hg, hG'⟩ := hG s' hs'
    obtain ⟨hh, hH'⟩ := hH s' hs'
    exact ⟨⟨hg, hh⟩, ih hG' hH'⟩

/-- If under the guard every step moves the observer `w` exactly as it moves the potential
    `p`, and `p` stays in `[lo, hi]`, then `w` moves by at most `hi - lo` over a run. -/
theorem run_drift_bound {I : σ → Prop} {G : σ → α → Prop} (w p : σ → ℤ) {lo hi : ℤ}
    (hI : ∀ s a s', I s → G s a → M.step s a = some s' → I s')
    (hstep : ∀ s a s', I s → G s a → M.step s a = some s' → w s' - w s = p s' - p s)
    (hp : ∀ s, I s → lo ≤ p s ∧ p s ≤ hi)
    {s s' : σ} {as : List α} (h₀ : I s) (hG : M.Along G s as) (hrun : M.run s as = some s') :
    |w s' - w s| ≤ hi - lo := by
  have key : I s' ∧ w s' - p s' = w s - p s := by
    refine run_induction_along (I := fun t => I t ∧ w t - p t = w s - p s) ?_ ⟨h₀, rfl⟩ hG hrun
    intro t a t' ht hg hstep'
    have hmove := hstep t a t' ht.1 hg hstep'
    exact ⟨hI t a t' ht.1 hg hstep', by omega⟩
  have hs := hp s h₀
  have hs' := hp s' key.1
  rw [abs_le]
  omega

end Lts
end DatacenterNetworking
