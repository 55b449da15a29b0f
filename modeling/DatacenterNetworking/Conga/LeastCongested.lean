/-
  DatacenterNetworking.Conga.LeastCongested

  The core that `ToR::minCongestedCore` picks.  Its loop is a scan for the least
  metric of the row `CongToLeaf[dstToR]` and the cores that have it, so that the
  candidates `rand()` chooses from are exactly the least congested cores.

  `rand()` returns any number up to `RAND_MAX`, which the C library guarantees to
  be at least 32767; there are at most 255 candidates.
-/

import DatacenterNetworking.Conga.Tor
import DatacenterNetworking.Lib.LeastTies
import Mathlib.Order.Lattice

namespace DatacenterNetworking
namespace Conga
namespace ToR

theorem minCores_eq (cong : Nat → Nat) : minCores cong = scanLeast cong := rfl

/-- The candidates of `minCongestedCore` when the loop is over. -/
def candidates (nCore : Nat) (t : ToR) (dstToR : Nat) : List Nat :=
  ((List.range' 1 (nCore - 1)).foldl (minCores (t.congToLeaf dstToR))
    (t.congToLeaf dstToR 0, [0])).2

theorem minCongestedCore_eq (nCore rand : Nat) (t : ToR) (dstToR : Nat) :
    t.minCongestedCore nCore rand dstToR =
      (t.candidates nCore dstToR).getD (rand % (t.candidates nCore dstToR).length) 0 := rfl

/-- No core has a smaller metric towards the leaf. -/
structure LeastCongested (nCore : Nat) (t : ToR) (dstToR core : Nat) : Prop where
  core_lt : core < nCore
  least : ∀ i < nCore, t.congToLeaf dstToR core ≤ t.congToLeaf dstToR i

section Candidates

variable {nCore : Nat} {t : ToR} {dstToR : Nat}

/-- The loop has seen every core. -/
theorem leads_candidates (hpos : 0 < nCore) :
    ∃ cg, Leads (t.congToLeaf dstToR) (List.range nCore) (cg, t.candidates nCore dstToR) := by
  have hloop := leads_foldl (leads_singleton (t.congToLeaf dstToR) 0) (List.range' 1 (nCore - 1))
  have hcores : [0] ++ List.range' 1 (nCore - 1) = List.range nCore := by
    obtain ⟨n, rfl⟩ := Nat.exists_eq_succ_of_ne_zero hpos.ne'
    rw [List.range_eq_range']
    rfl
  rw [hcores] at hloop
  exact ⟨_, hloop⟩

theorem mem_candidates (hpos : 0 < nCore) {core : Nat} :
    core ∈ t.candidates nCore dstToR ↔ LeastCongested nCore t dstToR core := by
  obtain ⟨cg, hleads⟩ := @leads_candidates _ t dstToR hpos
  rw [hleads.mem_iff]
  simp only [List.mem_range]
  exact ⟨fun h => ⟨h.1, h.2⟩, fun h => ⟨h.core_lt, h.least⟩⟩

theorem length_candidates (hpos : 0 < nCore) :
    t.candidates nCore dstToR ≠ [] ∧ (t.candidates nCore dstToR).length ≤ nCore := by
  obtain ⟨cg, hleads⟩ := @leads_candidates _ t dstToR hpos
  refine ⟨hleads.found, ?_⟩
  have hle := hleads.length_le
  rw [List.length_range] at hle
  exact hle

end Candidates

/-- A random index, reduced to the length of the list, finds an element. -/
theorem getD_mod_mem {cores : List Nat} (hne : cores ≠ []) (rand : Nat) :
    cores.getD (rand % cores.length) 0 ∈ cores := by
  have hidx : rand % cores.length < cores.length :=
    Nat.mod_lt _ (List.length_pos_iff.mpr hne)
  rw [List.getD_eq_getElem?_getD, List.getElem?_eq_getElem hidx]
  exact List.getElem_mem hidx

/-- Every element is found by an index of its own. -/
theorem exists_getD_mod {cores : List Nat} {core : Nat} (h : core ∈ cores) :
    ∃ rand < cores.length, cores.getD (rand % cores.length) 0 = core := by
  obtain ⟨rand, hlt, hcore⟩ := List.mem_iff_getElem.mp h
  refine ⟨rand, hlt, ?_⟩
  rw [Nat.mod_eq_of_lt hlt, List.getD_eq_getElem?_getD, List.getElem?_eq_getElem hlt]
  exact hcore

theorem leastCongested_minCongestedCore {nCore : Nat} (hpos : 0 < nCore) (rand : Nat) (t : ToR)
    (dstToR : Nat) : LeastCongested nCore t dstToR (t.minCongestedCore nCore rand dstToR) := by
  rw [minCongestedCore_eq]
  exact (mem_candidates hpos).mp (getD_mod_mem (length_candidates hpos).1 rand)

/-- The core returned is one of the cores, whatever the tables say and `rand()` returns. -/
theorem minCongestedCore_lt {nCore : Nat} (hpos : 0 < nCore) (rand : Nat) (t : ToR)
    (dstToR : Nat) : t.minCongestedCore nCore rand dstToR < nCore :=
  (leastCongested_minCongestedCore hpos rand t dstToR).core_lt

/-- The tag of a packet is a least congested core, and each of these can be the tag. -/
theorem minCongestedCore_range {nCore : Nat} (hpos : 1 ≤ nCore) (hmax : nCore ≤ 255)
    {randMax : Nat} (hrand : 32767 ≤ randMax) (t : ToR) (dstToR : Nat) :
    (∀ rand ≤ randMax,
      LeastCongested nCore t dstToR (t.minCongestedCore nCore rand dstToR) ∧
        (t.asSrcToR nCore rand dstToR).2.lbtag = t.minCongestedCore nCore rand dstToR) ∧
    ∀ core, LeastCongested nCore t dstToR core ↔
      ∃ rand ≤ randMax, t.minCongestedCore nCore rand dstToR = core := by
  refine ⟨fun rand _ => ⟨leastCongested_minCongestedCore hpos rand t dstToR, rfl⟩, fun core => ?_⟩
  constructor
  · intro hcore
    -- at most 255 candidates, so `rand()` reaches every index
    obtain ⟨rand, hlt, heq⟩ := exists_getD_mod ((mem_candidates hpos).mpr hcore)
    have hlen := (@length_candidates _ t dstToR hpos).2
    refine ⟨rand, by omega, ?_⟩
    rw [minCongestedCore_eq]
    exact heq
  · rintro ⟨rand, -, rfl⟩
    exact leastCongested_minCongestedCore hpos rand t dstToR

/-- Three cores, the last two less congested than the first: either of the two, by `rand()`. -/
theorem minCongestedCore_ties :
    ∃ t : ToR, t.congToLeaf 1 = (fun i => if i = 0 then 7 else 3) ∧
      (∀ core, LeastCongested 3 t 1 core ↔
        ∃ rand ≤ 32767, t.minCongestedCore 3 rand 1 = core) ∧
      t.minCongestedCore 3 0 1 = 1 ∧ t.minCongestedCore 3 1 1 = 2 := by
  refine ⟨{ ToR.new 0 fun _ => 0 with congToLeaf := fun _ i => if i = 0 then 7 else 3 },
    rfl, ?_, by decide, by decide⟩
  exact (minCongestedCore_range (by decide) (by decide) (le_refl 32767) _ 1).2

end ToR
end Conga
end DatacenterNetworking
