/-
  DatacenterNetworking.Htsim.Workloads

  Flow sizes (`workloads.cpp`, `workloads.h`).  `generateFlowSize` looks the value
  of `drand()` up in the map from probabilities to sizes and interpolates between
  the entries around it.

  `drand()` is `rand()` over `RAND_MAX`, so that it can be 1, and no key of a table
  that ends at 1 is above that: there `upper_bound` is `end()`, which is
  dereferenced.  `sampled_iff`: every other sample is right.

  Probabilities are exact; `none` is a step the language does not define.
-/

import DatacenterNetworking.Lib.Interpolation
import Mathlib.Data.Rat.Floor

namespace DatacenterNetworking
namespace Htsim

/-- `Workloads::FlowDist`. -/
inductive FlowDist where
  | UNIFORM
  | PARETO
  | ENTERPRISE
  | DATAMINING
  deriving DecidableEq, Repr

/-! ## The tables -/

/-- `enterprise_size`. -/
def enterpriseSize : List UInt64 :=
  [250, 270, 286, 297, 312, 327, 342, 356, 368, 383, 404, 427, 447, 469, 490, 512, 536, 561,
   587, 612, 636, 651, 674, 696, 708, 729, 753, 782, 820, 857, 900, 945, 990, 1036, 1086,
   1140, 1200, 1260, 1311, 1353, 1393, 1452, 1485, 1510, 1540, 1597, 1658, 1721, 1784, 1873,
   1978, 2079, 2160, 2267, 2395, 2536, 2688, 2862, 2960, 3040, 3163, 3390, 3603, 3836, 4124,
   4406, 4540, 4673, 4952, 5260, 5625, 5938, 6088, 6506, 6976, 7430, 7800, 8332, 8849, 9477,
   10344, 11256, 12396, 13766, 15370, 17417, 19884, 22822, 26285, 30973, 37152, 45274, 55796,
   70997, 94050, 131474, 189792, 344538, 898190, 2221957, 2624209, 3114668, 3849851, 4904979,
   6438497, 8608848, 13392072, 23110447, 40607470, 44466961, 48564256, 53520618, 59661017,
   67292218, 76720988, 92984411, 121274824, 168707183, 176569410, 184086600, 195504461,
   211698244, 230332119, 249070260, 293849828, 361127656, 440186178, 442950536, 449947224,
   466035021, 482515012, 510665738, 561765744, 669621992, 738727896, 1022256099, 1773379248]

/-- `enterprise_prob`. -/
def enterpriseProb : List Rat :=
  [0.0, 0.01, 0.02, 0.03, 0.04, 0.05, 0.06, 0.07, 0.08, 0.09, 0.1, 0.11, 0.12, 0.13, 0.14,
   0.15, 0.16, 0.17, 0.18, 0.19, 0.2, 0.21, 0.22, 0.23, 0.24, 0.25, 0.26, 0.27, 0.28, 0.29,
   0.3, 0.31, 0.32, 0.33, 0.34, 0.35, 0.36, 0.37, 0.38, 0.39, 0.4, 0.41, 0.42, 0.43, 0.44,
   0.45, 0.46, 0.47, 0.48, 0.49, 0.5, 0.51, 0.52, 0.53, 0.54, 0.55, 0.56, 0.57, 0.58, 0.59,
   0.6, 0.61, 0.62, 0.63, 0.64, 0.65, 0.66, 0.67, 0.68, 0.69, 0.7, 0.71, 0.72, 0.73, 0.74,
   0.75, 0.76, 0.77, 0.78, 0.79, 0.8, 0.81, 0.82, 0.83, 0.84, 0.85, 0.86, 0.87, 0.88, 0.89,
   0.9, 0.91, 0.92, 0.93, 0.94, 0.95, 0.96, 0.97, 0.98, 0.99, 0.991, 0.992, 0.993, 0.994,
   0.995, 0.996, 0.997, 0.998, 0.999, 0.9991, 0.9992, 0.9993, 0.9994, 0.9995, 0.9996, 0.9997,
   0.9998, 0.9999, 0.99991, 0.99992, 0.99993, 0.99994, 0.99995, 0.99996, 0.99997, 0.99998,
   0.99999, 0.999991, 0.999992, 0.999993, 0.999994, 0.999995, 0.999996, 0.999997, 0.999998,
   0.999999, 1.0]

/-- `datamining_size`. -/
def dataminingSize : List UInt64 :=
  [150, 180, 216, 560, 900, 1100, 1870, 3160, 10000, 400000, 3160000, 100000000, 1000000000]

/-- `datamining_prob`. -/
def dataminingProb : List Rat :=
  [0.0, 0.1, 0.2, 0.3, 0.4, 0.5, 0.6, 0.7, 0.8, 0.9, 0.95, 0.98, 1.0]

/-- `_flowSizeCDF[key] = size`, the map in the order of its keys. -/
def setEntry (key : Rat) (size : UInt64) : List (Rat × UInt64) → List (Rat × UInt64)
  | [] => [(key, size)]
  | e :: rest =>
      if key < e.1 then (key, size) :: e :: rest
      else if key = e.1 then (key, size) :: rest
      else e :: setEntry key size rest

/-- `Workloads`. -/
structure Workloads where
  avgFlowSize : UInt32
  flowSizeDist : FlowDist
  flowSizeCDF : List (Rat × UInt64)

namespace Workloads

/-- The constructor's loop. -/
def fillCDF (prob : List Rat) (size : List UInt64) : List (Rat × UInt64) :=
  (prob.zip size).foldl (fun cdf e => setEntry e.1 e.2 cdf) []

/-- The constructor. -/
def new (avgFlowSize : UInt32) (flowSizeDist : FlowDist) : Workloads :=
  match flowSizeDist with
  | .ENTERPRISE => ⟨215000, .ENTERPRISE, fillCDF enterpriseProb enterpriseSize⟩
  | .DATAMINING => ⟨12500000, .DATAMINING, fillCDF dataminingProb dataminingSize⟩
  | dist => ⟨avgFlowSize, dist, []⟩

/-- `drand`. -/
def drand (randMax rand : Nat) : Rat := rand / randMax

/-- The size between two entries of the map, the difference of the sizes in 64 bits. -/
def flowsize (l r : Rat × UInt64) (random : Rat) : Option UInt64 :=
  if r.1 - l.1 = 0 then none
  else
    some (UInt64.ofNat
      ((l.2.toNat : Rat) + ((r.2 - l.2).toNat : Rat) * (random - l.1) / (r.1 - l.1)).floor.toNat)

/-- `Workloads::generateFlowSize`.  `pareto` is what the function of that name returns for a
    mean and a value of `rand()`. -/
def generateFlowSize (pareto : UInt32 → Nat → UInt64) (randMax : Nat) (w : Workloads)
    (rand : Nat) : Option UInt64 :=
  match w.flowSizeDist with
  | .PARETO => some (pareto w.avgFlowSize rand)
  | .UNIFORM => some w.avgFlowSize.toUInt64
  | .ENTERPRISE | .DATAMINING =>
      (around w.flowSizeCDF (drand randMax rand)).bind fun e =>
        flowsize e.1 e.2 (drand randMax rand)

/-! ## The map -/

theorem setEntry_last {key : Rat} (size : UInt64) {cdf : List (Rat × UInt64)}
    (hlast : ∀ e ∈ cdf, e.1 < key) : setEntry key size cdf = cdf ++ [(key, size)] := by
  induction cdf with
  | nil => rfl
  | cons e rest ih =>
    obtain ⟨he, hrest⟩ := List.forall_mem_cons.mp hlast
    rw [setEntry, if_neg he.not_gt, if_neg he.ne', ih hrest]
    rfl

theorem foldl_setEntry (entries : List (Rat × UInt64)) {cdf : List (Rat × UInt64)}
    (hkeys : (cdf ++ entries).Pairwise fun e e' => e.1 < e'.1) :
    entries.foldl (fun cdf e => setEntry e.1 e.2 cdf) cdf = cdf ++ entries := by
  induction entries generalizing cdf with
  | nil => exact (List.append_nil cdf).symm
  | cons e rest ih =>
    have hlast : ∀ e' ∈ cdf, e'.1 < e.1 := fun e' he' =>
      (List.pairwise_append.mp hkeys).2.2 e' he' e List.mem_cons_self
    rw [List.append_cons] at hkeys ⊢
    rw [List.foldl_cons, setEntry_last e.2 hlast]
    exact ih hkeys

/-- Keys in increasing order are filled in as they stand. -/
theorem fillCDF_eq {prob : List Rat} {size : List UInt64}
    (hkeys : (prob.zip size).Pairwise fun e e' => e.1 < e'.1) : fillCDF prob size = prob.zip size :=
  foldl_setEntry _ hkeys

/-- A table of cumulative probabilities from 0 to 1 with sizes that do not decrease. -/
structure IsCdf (cdf : List (Rat × UInt64)) : Prop where
  keys : cdf.Pairwise fun e e' => e.1 < e'.1
  sizes : cdf.Pairwise fun e e' => e.2 ≤ e'.2
  first : cdf.head?.map Prod.fst = some 0
  last : cdf.getLast?.map Prod.fst = some 1

/-- The size is looked up in such a table. -/
structure Tabled (w : Workloads) : Prop where
  dist : w.flowSizeDist = .ENTERPRISE ∨ w.flowSizeDist = .DATAMINING
  cdf : IsCdf w.flowSizeCDF

/-- For a table it is enough to compare neighbours. -/
theorem isCdf_fillCDF {prob : List Rat} {size : List UInt64}
    (hkeys : (prob.zip size).IsChain fun e e' => e.1 < e'.1)
    (hsizes : (prob.zip size).IsChain fun e e' => e.2 ≤ e'.2)
    (hfirst : (prob.zip size).head?.map Prod.fst = some 0)
    (hlast : (prob.zip size).getLast?.map Prod.fst = some 1) : IsCdf (fillCDF prob size) := by
  have : IsTrans (Rat × UInt64) fun e e' => e.1 < e'.1 := ⟨fun _ _ _ h h' => lt_trans h h'⟩
  have : IsTrans (Rat × UInt64) fun e e' => e.2 ≤ e'.2 := ⟨fun _ _ _ h h' => UInt64.le_trans h h'⟩
  have hkeys' := List.isChain_iff_pairwise.mp hkeys
  rw [fillCDF_eq hkeys']
  exact ⟨hkeys', List.isChain_iff_pairwise.mp hsizes, hfirst, hlast⟩

theorem tabled_enterprise (avgFlowSize : UInt32) : (new avgFlowSize .ENTERPRISE).Tabled where
  dist := Or.inl rfl
  cdf := isCdf_fillCDF (by decide +kernel) (by decide +kernel) (by decide +kernel)
    (by decide +kernel)

theorem tabled_datamining (avgFlowSize : UInt32) : (new avgFlowSize .DATAMINING).Tabled where
  dist := Or.inr rfl
  cdf := isCdf_fillCDF (by decide +kernel) (by decide +kernel) (by decide +kernel)
    (by decide +kernel)

namespace IsCdf

variable {cdf : List (Rat × UInt64)} {x : Rat}

/-- No key is above 1. -/
theorem le_one (h : IsCdf cdf) : ∀ e ∈ cdf, e.1 ≤ 1 := by
  obtain ⟨last, hlast, hone⟩ := Option.map_eq_some_iff.mp h.last
  obtain ⟨init, rfl⟩ := List.getLast?_eq_some_iff.mp hlast
  intro e he
  rcases List.mem_append.mp he with he | he
  · exact hone ▸ ((List.pairwise_append.mp h.keys).2.2 e he last (List.mem_singleton_self _)).le
  · exact (List.mem_singleton.mp he ▸ hone).le

/-- Every sample below 1 has its two entries. -/
theorem exists_around (h : IsCdf cdf) (hnonneg : 0 ≤ x) (hlt : x < 1) :
    ∃ l r, around cdf x = some (l, r) := by
  obtain ⟨first, hfirst, hzero⟩ := Option.map_eq_some_iff.mp h.first
  obtain ⟨last, hlast, hone⟩ := Option.map_eq_some_iff.mp h.last
  exact DatacenterNetworking.exists_around hfirst (hzero ▸ hnonneg)
    ⟨last, List.mem_of_getLast? hlast, hone ▸ hlt⟩

theorem around_eq_none (h : IsCdf cdf) (hone : 1 ≤ x) : around cdf x = none :=
  DatacenterNetworking.around_eq_none fun e he => (h.le_one e he).trans hone

end IsCdf

/-! ## One bracket -/

/-- An entry as a point of the plane. -/
def point (e : Rat × UInt64) : Rat × Rat := (e.1, (e.2.toNat : Rat))

section Flowsize

variable {l r : Rat × UInt64} {x y : Rat}

theorem point_le (hval : l.2 ≤ r.2) : (point l).2 ≤ (point r).2 :=
  Nat.cast_le.mpr (UInt64.le_iff_toNat_le.mp hval)

/-- The size is the interpolated one, truncated. -/
theorem flowsize_eq (hkey : l.1 < r.1) (hval : l.2 ≤ r.2) :
    flowsize l r x = some (UInt64.ofNat ⌊lerp (point l) (point r) x⌋.toNat) := by
  have hle := UInt64.le_iff_toNat_le.mp hval
  rw [flowsize, if_neg (sub_pos.mpr hkey).ne', UInt64.toNat_sub_of_le _ _ hval, Nat.cast_sub hle]
  rfl

/-- Nothing is lost when the truncated size is stored. -/
theorem toNat_ofNat_floor (hkey : l.1 ≤ x) (hlt : x < r.1) (hval : l.2 ≤ r.2) :
    (UInt64.ofNat ⌊lerp (point l) (point r) x⌋.toNat).toNat =
      ⌊lerp (point l) (point r) x⌋.toNat := by
  have hhigh := (lerp_mem (l := point l) (r := point r) (point_le hval) hkey hlt).2
  have hfloor : ⌊lerp (point l) (point r) x⌋ ≤ (r.2.toNat : Int) :=
    Int.cast_le.mp ((Int.floor_le _).trans hhigh)
  have hr := r.2.toNat_lt
  rw [UInt64.toNat_ofNat']
  exact Nat.mod_eq_of_lt (by omega)

theorem flowsize_mem (hkey : l.1 ≤ x) (hlt : x < r.1) (hval : l.2 ≤ r.2) {size : UInt64}
    (h : flowsize l r x = some size) : l.2 ≤ size ∧ size ≤ r.2 := by
  obtain ⟨hlow, hhigh⟩ := lerp_mem (l := point l) (r := point r) (point_le hval) hkey hlt
  rw [flowsize_eq (hkey.trans_lt hlt) hval] at h
  rw [← Option.some.inj h, UInt64.le_iff_toNat_le, UInt64.le_iff_toNat_le,
    toNat_ofNat_floor hkey hlt hval]
  have hlow' : (l.2.toNat : Int) ≤ ⌊lerp (point l) (point r) x⌋ := Int.le_floor.mpr hlow
  have hhigh' : ⌊lerp (point l) (point r) x⌋ ≤ (r.2.toNat : Int) :=
    Int.cast_le.mp ((Int.floor_le _).trans hhigh)
  omega

theorem flowsize_mono (hkey : l.1 ≤ x) (hxy : x ≤ y) (hlt : y < r.1) (hval : l.2 ≤ r.2)
    {size size' : UInt64} (h : flowsize l r x = some size) (h' : flowsize l r y = some size') :
    size ≤ size' := by
  rw [flowsize_eq (hkey.trans_lt (hxy.trans_lt hlt)) hval] at h h'
  rw [← Option.some.inj h, ← Option.some.inj h', UInt64.le_iff_toNat_le,
    toNat_ofNat_floor hkey (hxy.trans_lt hlt) hval, toNat_ofNat_floor (hkey.trans hxy) hlt hval]
  exact Int.toNat_le_toNat (Int.floor_le_floor
    (lerp_le_lerp (point_le hval) (hkey.trans (hxy.trans hlt.le)) hxy))

end Flowsize

/-! ## Samples -/

/-- The sample for `rand` finds an entry on both sides, of different probabilities; its size is
    between theirs, and at least that of every smaller `rand`. -/
def Sampled (pareto : UInt32 → Nat → UInt64) (randMax : Nat) (w : Workloads) (rand : Nat) : Prop :=
  ∃ size, w.generateFlowSize pareto randMax rand = some size ∧
    (∃ l r i, Around w.flowSizeCDF (drand randMax rand) l r i ∧ r.1 - l.1 ≠ 0 ∧
      l.2 ≤ size ∧ size ≤ r.2) ∧
    ∀ rand' ≤ rand, ∃ size', w.generateFlowSize pareto randMax rand' = some size' ∧ size' ≤ size

section Sample

variable {pareto : UInt32 → Nat → UInt64} {randMax : Nat} {w : Workloads}

theorem generateFlowSize_eq (h : w.Tabled) (rand : Nat) :
    w.generateFlowSize pareto randMax rand =
      (around w.flowSizeCDF (drand randMax rand)).bind fun e =>
        flowsize e.1 e.2 (drand randMax rand) := by
  rw [generateFlowSize]
  rcases h.dist with hdist | hdist <;> rw [hdist]

theorem drand_nonneg (randMax rand : Nat) : 0 ≤ drand randMax rand :=
  div_nonneg (Nat.cast_nonneg _) (Nat.cast_nonneg _)

theorem drand_mono {rand rand' : Nat} (h : rand' ≤ rand) :
    drand randMax rand' ≤ drand randMax rand :=
  div_le_div_of_nonneg_right (Nat.cast_le.mpr h) (Nat.cast_nonneg _)

theorem drand_lt_one {rand : Nat} (h : rand < randMax) : drand randMax rand < 1 :=
  (div_lt_one (Nat.cast_pos.mpr (Nat.zero_lt_of_lt h))).mpr (Nat.cast_lt.mpr h)

/-- A sample below 1 has its bracket, whose size it is. -/
theorem exists_size (h : w.Tabled) {rand : Nat} (hlt : rand < randMax) :
    ∃ l r i size, Around w.flowSizeCDF (drand randMax rand) l r i ∧ l.2 ≤ r.2 ∧
      flowsize l r (drand randMax rand) = some size ∧
      w.generateFlowSize pareto randMax rand = some size := by
  obtain ⟨l, r, hlr⟩ := h.cdf.exists_around (drand_nonneg randMax rand) (drand_lt_one hlt)
  obtain ⟨i, hi⟩ := around_spec hlr
  have hval : l.2 ≤ r.2 :=
    rel_of_index_le (R := fun e e' => e.2 ≤ e'.2) (fun _ => UInt64.le_refl _) h.cdf.sizes
      hi.left hi.right (Nat.le_succ i)
  refine ⟨l, r, i, _, hi, hval, flowsize_eq (hi.le.trans_lt hi.lt) hval, ?_⟩
  rw [generateFlowSize_eq h, hlr, Option.bind_some, flowsize_eq (hi.le.trans_lt hi.lt) hval]

theorem sampled_of_lt (h : w.Tabled) {rand : Nat} (hlt : rand < randMax) :
    Sampled pareto randMax w rand := by
  obtain ⟨l, r, i, size, hi, hval, hsize, hgen⟩ := @exists_size pareto _ _ h _ hlt
  obtain ⟨hlow, hhigh⟩ := flowsize_mem hi.le hi.lt hval hsize
  refine ⟨size, hgen, ⟨l, r, i, hi, (sub_pos.mpr (hi.le.trans_lt hi.lt)).ne', hlow, hhigh⟩,
    fun rand' hrand => ?_⟩
  obtain ⟨l', r', j, size', hj, hval', hsize', hgen'⟩ :=
    @exists_size pareto _ _ h _ (hrand.trans_lt hlt)
  refine ⟨size', hgen', ?_⟩
  have hmono := around_mono UInt64.le_refl h.cdf.keys h.cdf.sizes hj hi (drand_mono hrand)
  rcases hmono with ⟨rfl, rfl⟩ | hbelow
  · exact flowsize_mono hj.le (drand_mono hrand) hi.lt hval hsize' hsize
  · exact UInt64.le_trans (UInt64.le_trans (flowsize_mem hj.le hj.lt hval' hsize').2 hbelow) hlow

/-- At `RAND_MAX` the entry above the sample is `end()`. -/
theorem generateFlowSize_max (h : w.Tabled) (hpos : 0 < randMax) :
    w.generateFlowSize pareto randMax randMax = none := by
  have hone : drand randMax randMax = 1 := div_self (Nat.cast_ne_zero.mpr hpos.ne')
  rw [generateFlowSize_eq h, h.cdf.around_eq_none hone.ge]
  rfl

end Sample

/-- Both tables of the source are such tables, and in any of them exactly the samples for
    `RAND_MAX` fail. -/
theorem sampled_iff (pareto : UInt32 → Nat → UInt64) {randMax : Nat} (hpos : 0 < randMax) :
    (∀ avgFlowSize,
      (new avgFlowSize .ENTERPRISE).Tabled ∧ (new avgFlowSize .DATAMINING).Tabled) ∧
    ∀ w : Workloads, w.Tabled → ∀ rand ≤ randMax,
      (Sampled pareto randMax w rand ↔ rand < randMax) := by
  refine ⟨fun avg => ⟨tabled_enterprise avg, tabled_datamining avg⟩, fun w hw rand hrand => ?_⟩
  constructor
  · rintro ⟨size, hsize, -⟩
    refine lt_of_le_of_ne hrand fun heq => ?_
    rw [heq, generateFlowSize_max hw hpos] at hsize
    cases hsize
  · exact sampled_of_lt hw

/-- With `RAND_MAX` of 32767, half of it is a sample of the data-mining workload. -/
theorem sampled_half :
    Sampled (fun _ _ => 0) 32767 (new 0 .DATAMINING) 16383 :=
  ((sampled_iff _ (by decide)).2 _ ((sampled_iff (fun _ _ => 0) (by decide : 0 < 32767)).1 0).2
    16383 (by decide)).mpr (by decide)

/-- The sample for `RAND_MAX` is undefined in the data-mining workload. -/
theorem datamining_fails :
    (new 0 .DATAMINING).generateFlowSize (fun _ _ => 0) 2147483647 2147483647 = none ∧
    ¬ ∀ rand ≤ 2147483647, Sampled (fun _ _ => 0) 2147483647 (new 0 .DATAMINING) rand := by
  have hnone : (new 0 .DATAMINING).generateFlowSize (fun _ _ => 0) 2147483647 2147483647 = none :=
    generateFlowSize_max (tabled_datamining 0) (by decide)
  refine ⟨hnone, fun hall => ?_⟩
  obtain ⟨size, hsize, -⟩ := hall 2147483647 le_rfl
  rw [hnone] at hsize
  cases hsize

end Workloads

end Htsim
end DatacenterNetworking
