import Mathlib.Algebra.BigOperators.Fin
import Mathlib.Algebra.BigOperators.Intervals
import Mathlib.Tactic.Ring

/-!
# The unrolled distance kernels

`dot_product_naive` and `squared_l2_distance` share their loops: eight
accumulators advance together while eight more coordinates are available, a
fixed tree adds them up, and a tail loop adds what is left. `unrolledSum` is
that program with the term `term x[i] y[i]` as a parameter.
-/

namespace Spheres.Distance

variable {R : Type*} [CommRing R]

/-- The loop `for (i = 0; i + 7 < x.size(); i += 8)` over the accumulators
`xy0 .. xy7`; it returns the position where it stopped as well. -/
def unrolledLoop (term : R → R → R) (x y : List R) (i : Nat) (xy : Fin 8 → R) :
    Nat × (Fin 8 → R) :=
  if i + 7 < x.length then
    unrolledLoop term x y (i + 8) fun j => term (x.getD (i + j) 0) (y.getD (i + j) 0) + xy j
  else (i, xy)
termination_by x.length - i

/-- The tail loop `for (; i < x.size(); ++i)`. -/
def tailLoop (term : R → R → R) (x y : List R) (i : Nat) (acc : R) : R :=
  if i < x.length then tailLoop term x y (i + 1) (term (x.getD i 0) (y.getD i 0) + acc) else acc
termination_by x.length - i

def unrolledSum (term : R → R → R) (x y : List R) : R :=
  let r := unrolledLoop term x y 0 fun _ => 0
  let xy := r.2
  let total := ((xy 0 + xy 4) + (xy 1 + xy 5)) + ((xy 2 + xy 6) + (xy 3 + xy 7))
  if r.1 ≠ x.length then tailLoop term x y r.1 total else total

def dotProductNaive (x y : List R) : R := unrolledSum (fun a b => a * b) x y

def squaredL2Distance (x y : List R) : R := unrolledSum (fun a b => (a - b) * (a - b)) x y

def squaredNormalizedL2Distance [LE R] [DecidableLE R] (x y : List R) : R :=
  let dist := 2 - 2 * dotProductNaive x y
  if dist ≤ 0 then 0 else dist

/-- The sum of the terms at the positions below `n`. -/
def prefixSum (term : R → R → R) (x y : List R) (n : Nat) : R :=
  ∑ m ∈ Finset.range n, term (x.getD m 0) (y.getD m 0)

theorem prefixSum_add_eight (term : R → R → R) (x y : List R) (i : Nat) :
    prefixSum term x y (i + 8) = prefixSum term x y i +
      ∑ j : Fin 8, term (x.getD (i + j) 0) (y.getD (i + j) 0) := by
  have hfin := Finset.sum_range (n := 8) fun j => term (x.getD (i + j) 0) (y.getD (i + j) 0)
  rw [prefixSum, Finset.sum_range_add, hfin, prefixSum]

/-- The eight accumulators together hold the sum of the terms passed. -/
theorem unrolledLoop_spec (term : R → R → R) (x y : List R) (i : Nat) (xy : Fin 8 → R)
    (hi : i ≤ x.length) (hsum : ∑ j, xy j = prefixSum term x y i) :
    (unrolledLoop term x y i xy).1 ≤ x.length ∧
      ∑ j, (unrolledLoop term x y i xy).2 j =
        prefixSum term x y (unrolledLoop term x y i xy).1 := by
  fun_induction unrolledLoop term x y i xy with
  | case1 i xy h ih =>
    refine ih (by omega) ?_
    rw [prefixSum_add_eight, Finset.sum_add_distrib, hsum, add_comm]
  | case2 i xy h => exact ⟨hi, hsum⟩

theorem tailLoop_eq (term : R → R → R) (x y : List R) (i : Nat) (acc : R) (hi : i ≤ x.length)
    (hacc : acc = prefixSum term x y i) :
    tailLoop term x y i acc = prefixSum term x y x.length := by
  fun_induction tailLoop term x y i acc with
  | case1 i acc h ih =>
    refine ih (by omega) ?_
    rw [hacc, prefixSum, prefixSum, Finset.sum_range_succ, add_comm]
  | case2 i acc h =>
    have : i = x.length := by omega
    rw [hacc, this]

/-- The kernels compute the plain sum of their terms, for every length. -/
theorem unrolledSum_eq (term : R → R → R) (x y : List R) :
    unrolledSum term x y = prefixSum term x y x.length := by
  obtain ⟨hle, hsum⟩ := unrolledLoop_spec term x y 0 (fun _ => 0) (Nat.zero_le _)
    (by simp [prefixSum])
  unfold unrolledSum
  generalize unrolledLoop term x y 0 (fun _ => 0) = r at hle hsum
  have htotal : ((r.2 0 + r.2 4) + (r.2 1 + r.2 5)) + ((r.2 2 + r.2 6) + (r.2 3 + r.2 7)) =
      prefixSum term x y r.1 := by
    rw [← hsum, Fin.sum_univ_eight]
    ring
  simp only
  split
  · exact tailLoop_eq term x y r.1 _ hle htotal
  · rename_i hne
    rw [htotal, not_not.mp hne]

/-- The same for vectors given by their coordinates. -/
theorem unrolledSum_ofFn (term : R → R → R) {n : Nat} (x y : Fin n → R) :
    unrolledSum term (List.ofFn x) (List.ofFn y) = ∑ i, term (x i) (y i) := by
  have hget : ∀ (z : Fin n → R) (i : Fin n), (List.ofFn z).getD i 0 = z i := by
    intro z i
    rw [List.getD_eq_getElem?_getD, List.getElem?_ofFn, dif_pos i.isLt, Option.getD_some]
  rw [unrolledSum_eq, prefixSum, List.length_ofFn, Finset.sum_range]
  simp only [hget]

theorem squaredL2Distance_eq (x y : List R) :
    squaredL2Distance x y =
      ∑ m ∈ Finset.range x.length, (x.getD m 0 - y.getD m 0) * (x.getD m 0 - y.getD m 0) :=
  unrolledSum_eq _ x y

theorem dotProductNaive_eq (x y : List R) :
    dotProductNaive x y = ∑ m ∈ Finset.range x.length, x.getD m 0 * y.getD m 0 :=
  unrolledSum_eq _ x y

/-- The squared distance by inner products. -/
theorem squaredL2Distance_eq_dotProduct {x y : List R} (h : x.length = y.length) :
    squaredL2Distance x y =
      dotProductNaive x x - 2 * dotProductNaive x y + dotProductNaive y y := by
  rw [squaredL2Distance_eq, dotProductNaive_eq, dotProductNaive_eq, dotProductNaive_eq, ← h,
    Finset.mul_sum, ← Finset.sum_sub_distrib, ← Finset.sum_add_distrib]
  apply Finset.sum_congr rfl
  intro m _
  ring

end Spheres.Distance
