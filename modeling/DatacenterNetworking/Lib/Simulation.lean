/-
  DatacenterNetworking.Lib.Simulation

  Simulations between labelled transition systems.  A step of the concrete system is
  matched by any number of steps of the abstract one, whose labels may be limited to a
  set (`Reaches`).

    * `Reaches.invariant` — what such steps keep is kept;
    * `run_simulates`     — a relation that every step keeps is kept by every run.
-/

import DatacenterNetworking.Lib.Lts

namespace DatacenterNetworking
namespace Lts

variable {σ τ α β : Type*}

/-- `t` is reached from `s` by labels of `G`. -/
def Reaches (M : Lts σ α) (G : α → Prop) (s t : σ) : Prop :=
  ∃ as, (∀ a ∈ as, G a) ∧ M.run s as = some t

section Reaches

variable {M : Lts σ α} {G : α → Prop} {s t u : σ}

theorem Reaches.refl (s : σ) : M.Reaches G s s := ⟨[], fun _ ha => absurd ha List.not_mem_nil, rfl⟩

theorem Reaches.single {a : α} (ha : G a) (h : M.step s a = some t) : M.Reaches G s t :=
  ⟨[a], fun b hb => by
    rw [List.mem_singleton.mp hb]
    exact ha, run_one h⟩

theorem Reaches.trans (hst : M.Reaches G s t) (htu : M.Reaches G t u) : M.Reaches G s u := by
  obtain ⟨as, has, hrun⟩ := hst
  obtain ⟨bs, hbs, hrun'⟩ := htu
  refine ⟨as ++ bs, fun a ha => ?_, run_trans hrun hrun'⟩
  rcases List.mem_append.mp ha with ha | ha
  · exact has a ha
  · exact hbs a ha

/-- A property that every step with a label of `G` keeps. -/
theorem Reaches.invariant {I : σ → Prop} (h : M.Reaches G s t) (hs : I s)
    (hstep : ∀ s a t, G a → I s → M.step s a = some t → I t) : I t := by
  obtain ⟨as, has, hrun⟩ := h
  induction as generalizing s with
  | nil =>
    cases hrun
    exact hs
  | cons a as ih =>
    obtain ⟨hfirst, hrest⟩ := List.forall_mem_cons.mp has
    obtain ⟨s', hstep', hrun'⟩ := run_cons_eq_some.mp hrun
    exact ih (hstep s a s' hfirst hs hstep') hrest hrun'

end Reaches

/-- A forward simulation: when the steps of `M` from related states can be matched in `N`, so can
    its runs. -/
theorem run_simulates {M : Lts σ α} {N : Lts τ β} {G : β → Prop} {R : σ → τ → Prop}
    (hstep : ∀ {s a s' t}, R s t → M.step s a = some s' → ∃ t', N.Reaches G t t' ∧ R s' t')
    {s s' : σ} {t : τ} {as : List α} (h : R s t) (hrun : M.run s as = some s') :
    ∃ t', N.Reaches G t t' ∧ R s' t' := by
  refine run_induction (I := fun s' => ∃ t', N.Reaches G t t' ∧ R s' t') ?_
    ⟨t, Reaches.refl t, h⟩ hrun
  rintro u a u' ⟨t₁, hreach, hrel⟩ hstep'
  obtain ⟨t₂, hreach', hrel'⟩ := hstep hrel hstep'
  exact ⟨t₂, hreach.trans hreach', hrel'⟩

end Lts
end DatacenterNetworking
