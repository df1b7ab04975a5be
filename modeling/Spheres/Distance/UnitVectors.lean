import Mathlib.Algebra.BigOperators.Field
import Mathlib.Data.List.GetD
import Mathlib.Data.Rat.Sqrt
import Spheres.Distance.PageBound

/-!
# Unit vectors

`normalize` divides a vector by its length in place, with the loops of the
kernels. The two normalized distances are meant for what it returns: on unit
vectors they are the distance and the squared distance of the vectors, and the
linear test is sound for the one as the squared test is for the other. The
square root is a parameter that is exact where it is used.
-/

namespace Spheres.Distance

variable {R : Type*} [Field R]

/-! ## The loops of `normalize` -/

/-- The assignment `x[i] = x[i] / norm_x`. -/
def divideAt (normX : R) (x : List R) (i : Nat) : List R := x.modify i (· / normX)

/-- The loop `for (i = 0; i + 7 < x.size(); i += 8)` with its eight assignments;
it returns the position where it stopped as well. -/
def divideLoop (normX : R) (x : List R) (i : Nat) : List R × Nat :=
  if i + 7 < x.length then
    divideLoop normX ((List.range 8).foldl (fun x j => divideAt normX x (i + j)) x) (i + 8)
  else (x, i)
termination_by x.length - i
decreasing_by
  have hlength : ∀ (js : List Nat) (x : List R),
      (js.foldl (fun x j => divideAt normX x (i + j)) x).length = x.length := by
    intro js
    induction js with
    | nil => exact fun _ => rfl
    | cons j js ih => exact fun x => (ih _).trans (List.length_modify ..)
  rw [hlength]
  omega

/-- The tail loop `for (; i < x.size(); ++i)`. -/
def divideTail (normX : R) (x : List R) (i : Nat) : List R :=
  if i < x.length then divideTail normX (divideAt normX x i) (i + 1) else x
termination_by x.length - i
decreasing_by
  rw [divideAt, List.length_modify]
  omega

/-- `spheres::distance::normalize`. -/
def normalize [DecidableEq R] (sqrt : R → R) (x : List R) : List R :=
  let normX := dotProductNaive x x
  if normX = 0 then x
  else
    let normX := sqrt normX
    let r := divideLoop normX x 0
    if r.2 ≠ r.1.length then divideTail normX r.1 r.2 else r.1

/-- The vector with its first `i` coordinates divided. -/
def dividedTo (normX : R) (x : List R) (i : Nat) : List R :=
  (x.take i).map (· / normX) ++ x.drop i

@[simp] theorem length_dividedTo (normX : R) (x : List R) (i : Nat) :
    (dividedTo normX x i).length = x.length := by
  rw [dividedTo, List.length_append, List.length_map, List.length_take, List.length_drop]
  omega

theorem divideAt_dividedTo {normX : R} {x : List R} {i : Nat} (hi : i < x.length) :
    divideAt normX (dividedTo normX x i) i = dividedTo normX x (i + 1) := by
  have hlength : ((x.take i).map (· / normX)).length = i := by
    rw [List.length_map, List.length_take_of_le hi.le]
  apply List.ext_getElem?
  intro j
  rw [divideAt, List.getElem?_modify, dividedTo, dividedTo]
  grind

theorem foldl_divideAt {normX : R} {x : List R} {i : Nat} (n : Nat) (hi : i + n ≤ x.length) :
    (List.range n).foldl (fun x j => divideAt normX x (i + j)) (dividedTo normX x i) =
      dividedTo normX x (i + n) := by
  induction n with
  | zero => rfl
  | succ n ih =>
    rw [List.range_succ, List.foldl_append, ih (by omega)]
    exact divideAt_dividedTo (by omega)

/-- The unrolled loop stops with what it has passed divided. -/
theorem divideLoop_dividedTo (normX : R) (x : List R) (i : Nat) (hi : i ≤ x.length) :
    ∃ j ≤ x.length, divideLoop normX (dividedTo normX x i) i = (dividedTo normX x j, j) := by
  induction hn : x.length - i using Nat.strong_induction_on generalizing i with
  | _ n ih =>
    rw [divideLoop, length_dividedTo]
    split
    · rename_i h
      rw [foldl_divideAt 8 (by omega)]
      exact ih _ (by omega) (i + 8) (by omega) rfl
    · exact ⟨i, hi, rfl⟩

theorem divideTail_dividedTo (normX : R) (x : List R) (i : Nat) (hi : i ≤ x.length) :
    divideTail normX (dividedTo normX x i) i = x.map (· / normX) := by
  induction hn : x.length - i using Nat.strong_induction_on generalizing i with
  | _ n ih =>
    rw [divideTail, length_dividedTo]
    split
    · rename_i h
      rw [divideAt_dividedTo h]
      exact ih _ (by omega) (i + 1) (by omega) rfl
    · obtain rfl : i = x.length := by omega
      rw [dividedTo, List.take_length, List.drop_length, List.append_nil]

/-- The loops divide every coordinate once, for every length. -/
theorem normalize_eq [DecidableEq R] (sqrt : R → R) {x : List R} (h : dotProductNaive x x ≠ 0) :
    normalize sqrt x = x.map (· / sqrt (dotProductNaive x x)) := by
  obtain ⟨j, hj, hloop⟩ := divideLoop_dividedTo (sqrt (dotProductNaive x x)) x 0 (Nat.zero_le _)
  have hstart : dividedTo (sqrt (dotProductNaive x x)) x 0 = x := rfl
  have htail := divideTail_dividedTo (sqrt (dotProductNaive x x)) x j hj
  rw [hstart] at hloop
  simp only [normalize, if_neg h, hloop, length_dividedTo]
  split
  · exact htail
  · rename_i hne
    obtain rfl : j = x.length := not_not.mp hne
    rw [← htail, divideTail, length_dividedTo, if_neg (Nat.lt_irrefl _)]

theorem length_normalize [DecidableEq R] (sqrt : R → R) (x : List R) :
    (normalize sqrt x).length = x.length := by
  by_cases h : dotProductNaive x x = 0
  · rw [normalize, if_pos h]
  · rw [normalize_eq sqrt h, List.length_map]

theorem dotProductNaive_map_div (x y : List R) (a b : R) :
    dotProductNaive (x.map (· / a)) (y.map (· / b)) = dotProductNaive x y / (a * b) := by
  have hget : ∀ (z : List R) (c : R) (m : Nat), (z.map (· / c)).getD m 0 = z.getD m 0 / c := by
    intro z c m
    have h := List.getD_map z 0 (n := m) (· / c)
    rwa [zero_div] at h
  rw [dotProductNaive_eq, dotProductNaive_eq, List.length_map, Finset.sum_div]
  refine Finset.sum_congr rfl fun m _ => ?_
  rw [hget, hget, div_mul_div_comm]

/-! ## Directions -/

/-- `sqrt` is exact at `x`. -/
structure ExactSqrt [LE R] (sqrt : R → R) (x : R) : Prop where
  nonneg : 0 ≤ sqrt x
  mul_self : sqrt x * sqrt x = x

section Directions

variable [LinearOrder R] {sqrt : R → R}

theorem ExactSqrt.pos {a : R} (h : ExactSqrt sqrt a) (ha : a ≠ 0) : 0 < sqrt a := by
  refine h.nonneg.lt_of_ne fun hzero => ha ?_
  rw [← h.mul_self, ← hzero, mul_zero]

/-- What is divided by its length has length one. -/
theorem dotProductNaive_normalize {x : List R} (hx : dotProductNaive x x ≠ 0)
    (hsqrt : ExactSqrt sqrt (dotProductNaive x x)) :
    dotProductNaive (normalize sqrt x) (normalize sqrt x) = 1 := by
  rw [normalize_eq sqrt hx, dotProductNaive_map_div, hsqrt.mul_self, div_self hx]

variable [IsStrictOrderedRing R]

theorem ExactSqrt.eq {a b : R} (h : ExactSqrt sqrt a) (hb : 0 ≤ b) (hbb : b * b = a) :
    sqrt a = b :=
  (mul_self_inj h.nonneg hb).mp (h.mul_self.trans hbb.symm)

/-- Two vectors become the same unit vector if and only if they are positive multiples of each
other. -/
theorem normalize_eq_iff {x y : List R} (hx : dotProductNaive x x ≠ 0)
    (hy : dotProductNaive y y ≠ 0) (hsqrt : ExactSqrt sqrt (dotProductNaive x x))
    (hsqrt' : ExactSqrt sqrt (dotProductNaive y y)) :
    normalize sqrt x = normalize sqrt y ↔ ∃ c, 0 < c ∧ y = x.map (· / c) := by
  have ha := hsqrt.pos hx
  have hb := hsqrt'.pos hy
  constructor
  · rw [normalize_eq sqrt hx, normalize_eq sqrt hy]
    intro h
    refine ⟨sqrt (dotProductNaive x x) / sqrt (dotProductNaive y y), div_pos ha hb, ?_⟩
    have hmul := congrArg (List.map (· * sqrt (dotProductNaive y y))) h
    simp only [List.map_map, Function.comp_def, div_mul_cancel₀ _ hb.ne', List.map_id'] at hmul
    refine hmul.symm.trans (List.map_congr_left fun a _ => ?_)
    rw [div_div_eq_mul_div, div_mul_eq_mul_div]
  · rintro ⟨c, hc, rfl⟩
    have hlength : sqrt (dotProductNaive (x.map (· / c)) (x.map (· / c))) =
        sqrt (dotProductNaive x x) / c := by
      refine hsqrt'.eq (div_nonneg hsqrt.nonneg hc.le) ?_
      rw [div_mul_div_comm, hsqrt.mul_self, dotProductNaive_map_div]
    rw [normalize_eq sqrt hx, normalize_eq sqrt hy, hlength, List.map_map]
    refine List.map_congr_left fun a _ => ?_
    rw [Function.comp_apply, div_div_div_cancel_right₀ hc.ne']

end Directions

/-! ## Vectors of a database -/

section Vectors

variable [LinearOrder R] {sqrt : R → R} {dim : Nat}

/-- `spheres::interface::normalize`. -/
def Vec.normalize (sqrt : R → R) (v : Vec R dim) : Vec R dim :=
  ⟨Distance.normalize sqrt v.toList, by rw [length_normalize, List.Vector.toList_length]⟩

/-- A vector of length one. -/
abbrev UnitVec (R : Type*) [Field R] (dim : Nat) := {v : Vec R dim // Normalized v}

/-- A normalized vector. -/
def UnitVec.of (v : Vec R dim) (hv : dotProductNaive v.toList v.toList ≠ 0)
    (hsqrt : ExactSqrt sqrt (dotProductNaive v.toList v.toList)) : UnitVec R dim :=
  ⟨v.normalize sqrt, dotProductNaive_normalize hv hsqrt⟩

variable [IsStrictOrderedRing R]

theorem squaredL2_unit {v w : Vec R dim} (hv : Normalized v) (hw : Normalized w) :
    squaredL2 R dim v w = 2 - 2 * dotProductNaive v.toList w.toList := by
  have hlength : v.toList.length = w.toList.length := by
    rw [List.Vector.toList_length, List.Vector.toList_length]
  show squaredL2Distance v.toList w.toList = _
  rw [squaredL2Distance_eq_dotProduct hlength, show dotProductNaive v.toList v.toList = 1 from hv,
    show dotProductNaive w.toList w.toList = 1 from hw]
  ring

/-- Whatever its length is, `normalize` makes a vector one of length one, the same for vectors of
the same direction and for no others, and the squared normalized distance of two of them is
that of the cosine of the angle between the vectors. -/
theorem normalize_directions {v w : Vec R dim} (hv : dotProductNaive v.toList v.toList ≠ 0)
    (hw : dotProductNaive w.toList w.toList ≠ 0)
    (hsqrt : ExactSqrt sqrt (dotProductNaive v.toList v.toList))
    (hsqrt' : ExactSqrt sqrt (dotProductNaive w.toList w.toList)) :
    Normalized (v.normalize sqrt) ∧
      (v.normalize sqrt = w.normalize sqrt ↔ ∃ c, 0 < c ∧ w.toList = v.toList.map (· / c)) ∧
      squaredNormalizedL2Distance (v.normalize sqrt).toList (w.normalize sqrt).toList =
        2 - 2 * (dotProductNaive v.toList w.toList /
          (sqrt (dotProductNaive v.toList v.toList) *
            sqrt (dotProductNaive w.toList w.toList))) := by
  have hunit : Normalized (v.normalize sqrt) := dotProductNaive_normalize hv hsqrt
  have hunit' : Normalized (w.normalize sqrt) := dotProductNaive_normalize hw hsqrt'
  refine ⟨hunit, ?_, ?_⟩
  · rw [← normalize_eq_iff hv hw hsqrt hsqrt']
    exact Subtype.ext_iff
  · have hdot : dotProductNaive (v.normalize sqrt).toList (w.normalize sqrt).toList =
        dotProductNaive v.toList w.toList /
          (sqrt (dotProductNaive v.toList v.toList) *
            sqrt (dotProductNaive w.toList w.toList)) := by
      show dotProductNaive (normalize sqrt v.toList) (normalize sqrt w.toList) = _
      rw [normalize_eq sqrt hv, normalize_eq sqrt hw, dotProductNaive_map_div]
    rw [squaredNormalizedL2Distance_eq hunit hunit', ← hdot]
    exact squaredL2_unit hunit hunit'

/-- The vector (3, 4) and its double. -/
theorem normalize_directions_double :
    Normalized ((Vec.pair 3 4 : Vec ℚ 2).normalize Rat.sqrt) ∧
      (Vec.pair 3 4 : Vec ℚ 2).normalize Rat.sqrt = (Vec.pair 6 8).normalize Rat.sqrt := by
  have hpair : ExactSqrt Rat.sqrt (dotProductNaive [3, 4] [3, 4]) :=
    ⟨by decide +kernel, by decide +kernel⟩
  have hdouble : ExactSqrt Rat.sqrt (dotProductNaive [6, 8] [6, 8]) :=
    ⟨by decide +kernel, by decide +kernel⟩
  obtain ⟨hunit, hsame, -⟩ := normalize_directions (v := .pair 3 4) (w := .pair 6 8)
    (by decide +kernel) (by decide +kernel) hpair hdouble
  exact ⟨hunit, hsame.mpr ⟨1 / 2, by decide +kernel, by decide +kernel⟩⟩

/-! ## The supported functions -/

/-- `spheres::distance::normalized_l2_distance`. -/
def normalizedL2Distance (sqrt : R → R) (x y : List R) : R :=
  sqrt (squaredNormalizedL2Distance x y)

/-- The function that the constructor of a database installs as `dist_func`. -/
def distFunc (sqrt : R → R) : SupportedDistanceFunctions → List R → List R → R
  | .normalizedL2Distance => normalizedL2Distance sqrt
  | .squaredNormalizedL2Distance => squaredNormalizedL2Distance
  | .squaredL2Distance => squaredL2Distance

/-- The squared distance that an installed function stands for. -/
def squaredUnits : SupportedDistanceFunctions → R → R
  | .normalizedL2Distance, d => d * d
  | .squaredNormalizedL2Distance, d => d
  | .squaredL2Distance, d => d

/-- The square roots of the distances of unit vectors are exact. -/
def ExactOnUnits (sqrt : R → R) (dim : Nat) : Prop :=
  ∀ v w : UnitVec R dim, ExactSqrt sqrt (squaredL2 R dim v.1 w.1)

theorem normalizedL2Distance_eq (v w : UnitVec R dim) :
    normalizedL2Distance sqrt v.1.toList w.1.toList = sqrt (squaredL2 R dim v.1 w.1) := by
  rw [normalizedL2Distance, squaredNormalizedL2Distance_eq v.2 w.2]

/-- Every supported function gives the squared distance of unit vectors, in its units. -/
theorem squaredUnits_distFunc (hsqrt : ExactOnUnits sqrt dim) (f : SupportedDistanceFunctions)
    (v w : UnitVec R dim) :
    squaredUnits f (distFunc sqrt f v.1.toList w.1.toList) = squaredL2 R dim v.1 w.1 := by
  cases f with
  | normalizedL2Distance =>
    rw [distFunc, normalizedL2Distance_eq]
    exact (hsqrt v w).mul_self
  | squaredNormalizedL2Distance => exact squaredNormalizedL2Distance_eq v.2 w.2
  | squaredL2Distance => rfl

theorem distFunc_nonneg (hsqrt : ExactOnUnits sqrt dim) (f : SupportedDistanceFunctions)
    (v w : UnitVec R dim) : 0 ≤ distFunc sqrt f v.1.toList w.1.toList := by
  cases f with
  | normalizedL2Distance =>
    rw [distFunc, normalizedL2Distance_eq]
    exact (hsqrt v w).nonneg
  | squaredNormalizedL2Distance =>
    rw [distFunc, squaredNormalizedL2Distance_eq v.2 w.2]
    exact (squaredL2 R dim).nonneg _ _
  | squaredL2Distance => exact (squaredL2 R dim).nonneg _ _

/-- The units keep the order of distances. -/
theorem squaredUnits_lt (f : SupportedDistanceFunctions) {a b : R} (ha : 0 ≤ a) (hb : 0 ≤ b) :
    squaredUnits f a < squaredUnits f b ↔ a < b := by
  cases f with
  | normalizedL2Distance => exact mul_self_lt_mul_self_iff ha hb |>.symm
  | squaredNormalizedL2Distance => exact Iff.rfl
  | squaredL2Distance => exact Iff.rfl

theorem squaredUnits_injective (f : SupportedDistanceFunctions) {a b : R} (ha : 0 ≤ a)
    (hb : 0 ≤ b) (h : squaredUnits f a = squaredUnits f b) : a = b := by
  cases f with
  | normalizedL2Distance => exact (mul_self_inj ha hb).mp h
  | squaredNormalizedL2Distance => exact h
  | squaredL2Distance => exact h

/-- The supported functions as distance functions of unit vectors. -/
def unitDistance (hsqrt : ExactOnUnits sqrt dim) (f : SupportedDistanceFunctions) :
    DistFunc (UnitVec R dim) R where
  dist v w := distFunc sqrt f v.1.toList w.1.toList
  self_eq v := by
    refine squaredUnits_injective f (distFunc_nonneg hsqrt f v v) le_rfl ?_
    rw [squaredUnits_distFunc hsqrt, (squaredL2 R dim).self_eq]
    cases f <;> simp [squaredUnits]
  symm v w := by
    refine squaredUnits_injective f (distFunc_nonneg hsqrt f v w) (distFunc_nonneg hsqrt f w v) ?_
    rw [squaredUnits_distFunc hsqrt, squaredUnits_distFunc hsqrt, (squaredL2 R dim).symm]
  nonneg := distFunc_nonneg hsqrt f

theorem unitDistance_sq (hsqrt : ExactOnUnits sqrt dim) (v w : UnitVec R dim) :
    unitDistance hsqrt .normalizedL2Distance v w ^ 2 = squaredL2 R dim v.1 w.1 :=
  (sq _).trans (squaredUnits_distFunc hsqrt .normalizedL2Distance v w)

/-- On unit vectors every installed test is sound for the function it is installed with: the
linear test prunes when the squared one prunes the squares. -/
theorem pruneCheckFunc_sound (hsqrt : ExactOnUnits sqrt dim) (f : SupportedDistanceFunctions) :
    PruneSound (unitDistance hsqrt f) (pruneCheckFunc f) := by
  intro q a v m w hv hprune
  cases f with
  | normalizedL2Distance =>
    have hd := (unitDistance hsqrt .normalizedL2Distance).nonneg
    cases w with
    | top => simp [pruneCheckFunc] at hprune
    | coe w =>
      have htest : w < unitDistance hsqrt .normalizedL2Distance q a - m :=
        WithTop.coe_lt_coe.mp (of_decide_eq_true hprune)
      rw [WithTop.coe_lt_coe]
      rcases lt_or_ge w 0 with hneg | hw
      · exact hneg.trans_le (hd v q)
      · have hm : 0 ≤ m := (hd v a).trans hv
        have hsquared := (squaredPruneCheck_sq (hd q a) hm hw).mpr htest
        rw [unitDistance_sq] at hsquared
        have hbeyond := squaredPruneCheck_sound dim q.1 a.1 v.1 (m ^ 2) _
          (unitDistance_sq hsqrt v a ▸ pow_le_pow_left₀ (hd v a) hv 2) hsquared
        rw [WithTop.coe_lt_coe, ← unitDistance_sq hsqrt] at hbeyond
        exact lt_of_pow_lt_pow_left₀ 2 (hd v q) hbeyond
  | squaredNormalizedL2Distance =>
    have heq : ∀ v w : UnitVec R dim,
        unitDistance hsqrt .squaredNormalizedL2Distance v w = squaredL2 R dim v.1 w.1 :=
      squaredUnits_distFunc hsqrt .squaredNormalizedL2Distance
    rw [heq] at hv hprune ⊢
    exact squaredPruneCheck_sound dim q.1 a.1 v.1 m w hv hprune
  | squaredL2Distance => exact squaredPruneCheck_sound dim q.1 a.1 v.1 m w hv hprune

end Vectors

end Spheres.Distance
