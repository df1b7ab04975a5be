import Mathlib.Algebra.Order.BigOperators.Ring.Finset
import Mathlib.Data.Vector.Basic
import Mathlib.Tactic.Linarith
import Mathlib.Tactic.Positivity
import Spheres.Definitions
import Spheres.Distance.Kernels

/-!
# The squared page bound

The installed test for squared distances compares `D`, the distance of the
query to the anchor of a page, the radius `M` of the page and the current worst
distance `W`. It is the triangle inequality written without square roots, and
it is sound over every ordered field: the Cauchy-Schwarz inequality replaces
the triangle inequality.
-/

namespace Spheres.Distance

variable {R : Type*} [Field R] [LinearOrder R] [IsStrictOrderedRing R]

/-- A vector of a database of dimension `dim`. -/
abbrev Vec (R : Type*) (dim : Nat) := List.Vector R dim

instance {dim : Nat} : Inhabited (Vec R dim) := ⟨List.Vector.replicate dim 0⟩

/-- A vector with one coordinate. -/
def Vec.point (x : R) : Vec R 1 := ⟨[x], rfl⟩

/-- The lambda installed as `prune_check_func` for `SquaredL2Distance`. A sum
is never greater than `infinity`, so nothing is pruned against it. -/
def squaredPruneCheck (distToAnchor inPageMax : R) : WithTop R → Bool
  | ⊤ => false
  | (worst : R) =>
    decide (distToAnchor > inPageMax) && decide (distToAnchor + inPageMax > worst) &&
      decide ((distToAnchor + inPageMax - worst) * (distToAnchor + inPageMax - worst) >
        4 * distToAnchor * inPageMax)

omit [IsStrictOrderedRing R] in
theorem squaredPruneCheck_coe {d m w : R} :
    squaredPruneCheck d m w = true ↔
      m < d ∧ w < d + m ∧ 4 * d * m < (d + m - w) * (d + m - w) := by
  simp [squaredPruneCheck, and_assoc]

omit [IsStrictOrderedRing R] in
@[simp] theorem squaredPruneCheck_top (d m : R) : squaredPruneCheck d m ⊤ = false := rfl

/-- The arithmetic of the bound. `p` stands for the inner product of
`q - a` and `v - a`, `c` for the squared distance from `v` to the anchor. -/
theorem bound_of_inner {d m w c p : R} (hc0 : 0 ≤ c) (hcm : c ≤ m) (hw : 0 ≤ w)
    (hp : p * p ≤ d * c) (hmd : m < d) (hs : w < d + m)
    (htest : 4 * d * m < (d + m - w) * (d + m - w)) : w < d + c - 2 * p := by
  by_contra hle
  have hm0 : 0 ≤ m := hc0.trans hcm
  have hd0 : 0 < d := lt_of_le_of_lt hm0 hmd
  have h2p : d + c - w ≤ 2 * p := by linarith
  have hs2 : d + m - w ≤ 2 * d := by linarith
  rcases le_or_gt (d + c - w) 0 with hneg | hpos
  · -- the whole gap lies in `m - c`, too little for the square to exceed `4 d m`
    have hgap : d + m - w ≤ m := by linarith
    have hsq : (d + m - w) * (d + m - w) ≤ m * m :=
      mul_self_le_mul_self (by linarith) hgap
    have hmm : m * m ≤ d * m := mul_le_mul_of_nonneg_right hmd.le hm0
    have hdm : 0 ≤ d * m := mul_nonneg hd0.le hm0
    linarith
  · have hsq : (d + c - w) * (d + c - w) ≤ (2 * p) * (2 * p) :=
      mul_self_le_mul_self hpos.le h2p
    have hprod : 0 ≤ (m - c) * (2 * d - (d + m - w)) :=
      mul_nonneg (by linarith) (by linarith)
    have hcc : 0 ≤ (m - c) * (m - c) := mul_self_nonneg _
    nlinarith

/-- A page pruned by the squared test holds no vector at distance `w` or less,
for coordinates given by functions on a finite index set. -/
theorem bound_of_sums {n : Nat} (q a v : Nat → R) {m w : R}
    (hv : ∑ i ∈ Finset.range n, (v i - a i) * (v i - a i) ≤ m) (hw : 0 ≤ w)
    (hmd : m < ∑ i ∈ Finset.range n, (q i - a i) * (q i - a i))
    (hs : w < (∑ i ∈ Finset.range n, (q i - a i) * (q i - a i)) + m)
    (htest : 4 * (∑ i ∈ Finset.range n, (q i - a i) * (q i - a i)) * m <
      ((∑ i ∈ Finset.range n, (q i - a i) * (q i - a i)) + m - w) *
        ((∑ i ∈ Finset.range n, (q i - a i) * (q i - a i)) + m - w)) :
    w < ∑ i ∈ Finset.range n, (v i - q i) * (v i - q i) := by
  have hcs := Finset.sum_mul_sq_le_sq_mul_sq (Finset.range n) (fun i => q i - a i)
    (fun i => v i - a i)
  simp only [pow_two] at hcs
  have hexpand : ∑ i ∈ Finset.range n, (v i - q i) * (v i - q i) =
      (∑ i ∈ Finset.range n, (q i - a i) * (q i - a i)) +
        (∑ i ∈ Finset.range n, (v i - a i) * (v i - a i)) -
        2 * ∑ i ∈ Finset.range n, (q i - a i) * (v i - a i) := by
    rw [Finset.mul_sum, ← Finset.sum_add_distrib, ← Finset.sum_sub_distrib]
    refine Finset.sum_congr rfl fun i _ => ?_
    ring
  rw [hexpand]
  exact bound_of_inner (Finset.sum_nonneg fun i _ => mul_self_nonneg _) hv hw hcs hmd hs htest

/-- `spheres::distance::squared_l2_distance` on the vectors of a database. -/
def squaredL2 (R : Type*) [Field R] [LinearOrder R] [IsStrictOrderedRing R] (dim : Nat) :
    DistFunc (Vec R dim) R where
  dist x y := squaredL2Distance x.toList y.toList
  self_eq v := by simp [squaredL2Distance_eq]
  symm v w := by
    simp only [squaredL2Distance_eq, List.Vector.toList_length]
    refine Finset.sum_congr rfl fun i _ => ?_
    ring
  nonneg v w := by
    rw [squaredL2Distance_eq]
    exact Finset.sum_nonneg fun i _ => mul_self_nonneg _

/-- What makes a prune test exact for a distance function: a pruned page holds
nothing at or below the bound. -/
def PruneSound {V : Type*} (dist : DistFunc V R) (prune : R → R → WithTop R → Bool) : Prop :=
  ∀ (q a v : V) (m : R) (w : WithTop R), dist v a ≤ m → prune (dist q a) m w = true →
    w < dist v q

theorem squaredPruneCheck_sound (dim : Nat) :
    PruneSound (squaredL2 R dim) squaredPruneCheck := by
  intro q a v m w hv hprune
  cases w with
  | top => simp at hprune
  | coe w =>
    rw [WithTop.coe_lt_coe]
    rcases lt_or_ge w 0 with hneg | hw
    · exact hneg.trans_le ((squaredL2 R dim).nonneg v q)
    · obtain ⟨hmd, hs, htest⟩ := squaredPruneCheck_coe.mp hprune
      simp only [squaredL2, squaredL2Distance_eq, List.Vector.toList_length] at hv hmd hs htest ⊢
      exact bound_of_sums _ _ _ hv hw hmd hs htest

/-! ## The installed tests -/

/-- The lambdas that the constructor of a database installs as `prune_check_func`. -/
def pruneCheckFunc : SupportedDistanceFunctions → R → R → WithTop R → Bool
  | .normalizedL2Distance, distToAnchor, inPageMax, worst =>
    decide (worst < (distToAnchor - inPageMax : R))
  | .squaredNormalizedL2Distance, distToAnchor, inPageMax, worst =>
    squaredPruneCheck distToAnchor inPageMax worst
  | .squaredL2Distance, distToAnchor, inPageMax, worst =>
    squaredPruneCheck distToAnchor inPageMax worst

/-- What `normalize` makes of every vector that is not zero. -/
def Normalized {dim : Nat} (v : Vec R dim) : Prop := dotProductNaive v.toList v.toList = 1

instance {dim : Nat} (v : Vec R dim) : Decidable (Normalized v) :=
  inferInstanceAs (Decidable (_ = _))

/-- For unit vectors nothing is cut off at zero, and the distance is the squared
distance of the vectors. -/
theorem squaredNormalizedL2Distance_eq {dim : Nat} {v w : Vec R dim} (hv : Normalized v)
    (hw : Normalized w) :
    squaredNormalizedL2Distance v.toList w.toList = squaredL2 R dim v w := by
  have hlength : v.toList.length = w.toList.length := by simp
  have hexpand : 2 - 2 * dotProductNaive v.toList w.toList = squaredL2 R dim v w := by
    show _ = squaredL2Distance v.toList w.toList
    rw [squaredL2Distance_eq_dotProduct hlength, show dotProductNaive v.toList v.toList = 1 from hv,
      show dotProductNaive w.toList w.toList = 1 from hw]
    ring
  have hnonneg := (squaredL2 R dim).nonneg v w
  unfold squaredNormalizedL2Distance
  simp only [hexpand]
  split
  · exact le_antisymm hnonneg ‹_›
  · rfl

/-- A page that a squared test prunes holds no vector at the current worst
distance or nearer: for the squared distance, and for the normalized one on unit
vectors. -/
theorem pruneCheckFunc_keeps (dim : Nat) (q a : Vec R dim) (page : Set (Vec R dim)) (m w : R) :
    ((∀ v ∈ page, squaredL2Distance v.toList a.toList ≤ m) →
      pruneCheckFunc .squaredL2Distance (squaredL2Distance q.toList a.toList) m w = true →
      ∀ v ∈ page, w < squaredL2Distance v.toList q.toList) ∧
    (Normalized q → Normalized a → (∀ v ∈ page, Normalized v) →
      (∀ v ∈ page, squaredNormalizedL2Distance v.toList a.toList ≤ m) →
      pruneCheckFunc .squaredNormalizedL2Distance
        (squaredNormalizedL2Distance q.toList a.toList) m w = true →
      ∀ v ∈ page, w < squaredNormalizedL2Distance v.toList q.toList) := by
  constructor
  · intro hpage hprune v hv
    exact WithTop.coe_lt_coe.mp (squaredPruneCheck_sound dim q a v m w (hpage v hv) hprune)
  · intro hq ha hunit hpage hprune v hv
    have hle := hpage v hv
    rw [squaredNormalizedL2Distance_eq (hunit v hv) ha] at hle
    rw [squaredNormalizedL2Distance_eq hq ha] at hprune
    rw [squaredNormalizedL2Distance_eq (hunit v hv) hq]
    exact WithTop.coe_lt_coe.mp (squaredPruneCheck_sound dim q a v m w hle hprune)

/-- A vector with two coordinates. -/
def Vec.pair (x y : R) : Vec R 2 := ⟨[x, y], rfl⟩

/-- The page of the first axis, seen from the second one. -/
theorem pruneCheckFunc_keeps_axes :
    (∀ v ∈ ({.pair 1 0} : Set (Vec ℚ 2)), 1 < squaredL2Distance v.toList [0, 1]) ∧
      ∀ v ∈ ({.pair 1 0} : Set (Vec ℚ 2)), 1 < squaredNormalizedL2Distance v.toList [0, 1] := by
  obtain ⟨hplain, hnormalized⟩ := pruneCheckFunc_keeps 2 (.pair 0 1) (.pair 1 0)
    ({.pair 1 0} : Set (Vec ℚ 2)) 0 1
  refine ⟨hplain ?_ (by decide +kernel),
    hnormalized (by decide +kernel) (by decide +kernel) ?_ ?_ (by decide +kernel)⟩
  all_goals
    rintro v rfl
    decide +kernel

/-! ## The policies -/

/-- The lambda that the benchmarks install for `legacy_prune` and `aggressive`. -/
def legacyPruneCheck (distToAnchor inPageMax : R) (worst : WithTop R) : Bool :=
  decide (worst < (distToAnchor - inPageMax : R))

/-- The squared test decides the linear one: under `w ≤ d + m` the square can be
taken of both sides of `2 d m < d² + m² - w²`. -/
theorem squaredPruneCheck_sq {d m w : R} (hd : 0 ≤ d) (hm : 0 ≤ m) (hw : 0 ≤ w) :
    squaredPruneCheck (d ^ 2) (m ^ 2) ((w ^ 2 : R) : WithTop R) = true ↔ w < d - m := by
  have hdm : 0 ≤ 2 * (d * m) := by positivity
  have hsquare : 4 * d ^ 2 * m ^ 2 = (2 * (d * m)) ^ 2 := by ring
  have hgap : d ^ 2 + m ^ 2 - w ^ 2 - 2 * (d * m) = (d - m) ^ 2 - w ^ 2 := by ring
  rw [squaredPruneCheck_coe, hsquare, ← sq]
  constructor
  · rintro ⟨hmd, hs, htest⟩
    have hlt : 2 * (d * m) < d ^ 2 + m ^ 2 - w ^ 2 := lt_of_pow_lt_pow_left₀ 2 (by linarith) htest
    have hsq : w ^ 2 < (d - m) ^ 2 := by linarith
    have hmd : m < d := lt_of_pow_lt_pow_left₀ 2 hd hmd
    exact lt_of_pow_lt_pow_left₀ 2 (by linarith) hsq
  · intro h
    have hmd : m < d := by linarith
    have hsq : w ^ 2 < (d - m) ^ 2 := pow_lt_pow_left₀ h hw two_ne_zero
    have hlt : 2 * (d * m) < d ^ 2 + m ^ 2 - w ^ 2 := by linarith
    exact ⟨pow_lt_pow_left₀ hmd hm two_ne_zero, by linarith, pow_lt_pow_left₀ hlt hdm two_ne_zero⟩

/-- The linear test implies the shortcut, as `d > m + w` and `(m + w)² ≥ m² + w²`. -/
theorem legacyPruneCheck_of_lt {d m w : R} (hm : 0 ≤ m) (hw : 0 ≤ w) (h : w < d - m) :
    legacyPruneCheck (d ^ 2) (m ^ 2) ((w ^ 2 : R) : WithTop R) = true := by
  have hsum : (m + w) ^ 2 < d ^ 2 := pow_lt_pow_left₀ (by linarith) (by positivity) two_ne_zero
  have hexpand : (m + w) ^ 2 = m ^ 2 + w ^ 2 + 2 * (m * w) := by ring
  have hmw : 0 ≤ m * w := mul_nonneg hm hw
  refine decide_eq_true (WithTop.coe_lt_coe.mpr ?_)
  linarith

/-- The squared tests are as strong as the linear one, and the shortcut prunes more. -/
theorem prunePolicies_related (R : Type*) [Field R] [LinearOrder R] [IsStrictOrderedRing R] :
    (∀ d m w : R, 0 ≤ d → 0 ≤ m → 0 ≤ w →
      ∀ f, f = .squaredL2Distance ∨ f = .squaredNormalizedL2Distance →
        (pruneCheckFunc f (d ^ 2) (m ^ 2) ((w ^ 2 : R) : WithTop R) = true ↔
          pruneCheckFunc .normalizedL2Distance d m (w : WithTop R) = true) ∧
        (pruneCheckFunc f (d ^ 2) (m ^ 2) ((w ^ 2 : R) : WithTop R) = true →
          legacyPruneCheck (d ^ 2) (m ^ 2) ((w ^ 2 : R) : WithTop R) = true)) ∧
    ∃ d m w : R, 0 ≤ d ∧ 0 ≤ m ∧ 0 ≤ w ∧
      legacyPruneCheck (d ^ 2) (m ^ 2) ((w ^ 2 : R) : WithTop R) = true ∧
      ∀ f, f = .squaredL2Distance ∨ f = .squaredNormalizedL2Distance →
        pruneCheckFunc f (d ^ 2) (m ^ 2) ((w ^ 2 : R) : WithTop R) = false := by
  have hsquared : ∀ f, f = .squaredL2Distance ∨ f = .squaredNormalizedL2Distance → ∀ d m w : R,
      pruneCheckFunc f d m (w : WithTop R) = squaredPruneCheck d m (w : WithTop R) := by
    rintro f (rfl | rfl) d m w <;> rfl
  constructor
  · intro d m w hd hm hw f hf
    rw [hsquared f hf, squaredPruneCheck_sq hd hm hw]
    refine ⟨?_, legacyPruneCheck_of_lt hm hw⟩
    simp only [pruneCheckFunc, decide_eq_true_eq, WithTop.coe_lt_coe]
  · refine ⟨5, 4, 2, by norm_num, by norm_num, by norm_num, ?_, fun f hf => ?_⟩
    · refine decide_eq_true (WithTop.coe_lt_coe.mpr ?_)
      norm_num
    · rw [hsquared f hf, ← Bool.not_eq_true,
        squaredPruneCheck_sq (by norm_num) (by norm_num) (by norm_num)]
      norm_num

theorem prunePolicies_related_rat :
    (pruneCheckFunc .squaredL2Distance (5 ^ 2) (2 ^ 2) ((2 ^ 2 : ℚ) : WithTop ℚ) = true ↔
      pruneCheckFunc .normalizedL2Distance 5 2 ((2 : ℚ) : WithTop ℚ) = true) ∧
    ∃ d m w : ℚ, 0 ≤ d ∧ 0 ≤ m ∧ 0 ≤ w ∧
      legacyPruneCheck (d ^ 2) (m ^ 2) ((w ^ 2 : ℚ) : WithTop ℚ) = true ∧
      ∀ f, f = .squaredL2Distance ∨ f = .squaredNormalizedL2Distance →
        pruneCheckFunc f (d ^ 2) (m ^ 2) ((w ^ 2 : ℚ) : WithTop ℚ) = false := by
  obtain ⟨hrelated, hfails⟩ := prunePolicies_related ℚ
  exact ⟨(hrelated 5 2 2 (by norm_num) (by norm_num) (by norm_num) _ (Or.inl rfl)).1, hfails⟩

end Spheres.Distance
