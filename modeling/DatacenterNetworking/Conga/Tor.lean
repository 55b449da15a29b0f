/-
  DatacenterNetworking.Conga.Tor

  The top-of-rack switch `ToR` (`conga.cpp`, `conga.h`).  As the source ToR of a
  packet it picks the core, and adds a congestion metric it has recorded for the
  destination; as the destination ToR it records the metric measured on the way
  and the one fed back to it.

  The number of cores is a parameter.  `rand()` is an argument of the function
  that calls it.
-/

import DatacenterNetworking.Lib.Lts
import Mathlib.Logic.Function.Basic

namespace DatacenterNetworking
namespace Conga

/-- `vxlan_t`. -/
structure Vxlan where
  src : Nat
  dst : Nat
  lbtag : Nat
  ce : Nat
  fbLbtag : Nat
  fbCe : Nat
  deriving DecidableEq, Repr

/-- `ToR`.  The tables are indexed by leaf and core. -/
structure ToR where
  idTor : Nat
  nxtLbTag : Nat → Nat
  congFromLeaf : Nat → Nat → Nat
  congToLeaf : Nat → Nat → Nat

namespace ToR

/-- The constructor; `nxtLbTag` is drawn at random. -/
def new (idTor : Nat) (nxtLbTag : Nat → Nat) : ToR where
  idTor := idTor
  nxtLbTag := nxtLbTag
  congFromLeaf := fun _ _ => 0
  congToLeaf := fun _ _ => 0

/-- One round of the loop of `minCongestedCore`: the least metric so far and its cores. -/
def minCores (cong : Nat → Nat) (best : Nat × List Nat) (i : Nat) : Nat × List Nat :=
  if cong i = best.1 then (best.1, best.2 ++ [i])
  else if cong i < best.1 then (cong i, [i])
  else best

/-- `ToR::minCongestedCore`. -/
def minCongestedCore (nCore rand : Nat) (t : ToR) (dstToR : Nat) : Nat :=
  let cong := t.congToLeaf dstToR
  let cores := ((List.range' 1 (nCore - 1)).foldl (minCores cong) (cong 0, [0])).2
  cores.getD (rand % cores.length) 0

/-- `ToR::updateNxtLbTag`. -/
def updateNxtLbTag (nCore : Nat) (t : ToR) (dstToR : Nat) : ToR :=
  { t with nxtLbTag := Function.update t.nxtLbTag dstToR ((t.nxtLbTag dstToR + 1) % nCore) }

/-- `ToR::asSrcToR`, for a packet whose route leads to leaf `dstToRId`: the tags it gets. -/
def asSrcToR (nCore rand : Nat) (t : ToR) (dstToRId : Nat) : ToR × Vxlan :=
  (t.updateNxtLbTag nCore dstToRId,
    { src := t.idTor
      dst := dstToRId
      lbtag := t.minCongestedCore nCore rand dstToRId
      ce := 0
      fbLbtag := t.nxtLbTag dstToRId
      fbCe := t.congFromLeaf dstToRId (t.nxtLbTag dstToRId) })

/-- One entry of a table replaced. -/
def setEntry (table : Nat → Nat → Nat) (leaf core val : Nat) : Nat → Nat → Nat :=
  Function.update table leaf (Function.update (table leaf) core val)

/-- `ToR::asDstToR`. -/
def asDstToR (t : ToR) (v : Vxlan) : ToR :=
  { t with
    congToLeaf := setEntry t.congToLeaf v.src v.fbLbtag v.fbCe
    congFromLeaf := setEntry t.congFromLeaf v.src v.lbtag v.ce
    nxtLbTag := Function.update t.nxtLbTag v.src v.lbtag }

@[simp] theorem setEntry_self (table : Nat → Nat → Nat) (leaf core val : Nat) :
    setEntry table leaf core val leaf core = val := by
  rw [setEntry, Function.update_self, Function.update_self]

theorem setEntry_of_ne {table : Nat → Nat → Nat} {leaf core val l c : Nat}
    (h : ¬ (l = leaf ∧ c = core)) : setEntry table leaf core val l c = table l c := by
  rw [setEntry]
  by_cases hl : l = leaf
  · subst hl
    rw [Function.update_self, Function.update_of_ne fun hc => h ⟨rfl, hc⟩]
  · rw [Function.update_of_ne hl]

end ToR

end Conga
end DatacenterNetworking
