import Mathlib
import Spheres.Distance.Kernels
import Spheres.Qwen.Tensor

/-!
# The arithmetic of the forward pass

Coordinates are in an exact ordered field, and the functions of `<cmath>` are a
parameter. Each operation on tensors comes with the theorem that says which cells
it writes with what, if the cells that it reads have been written.
-/

namespace Spheres.Qwen

open Library Distance

/-- The functions that the forward pass takes from `<cmath>`. -/
structure MathFunctions (R : Type*) where
  exp : R → R
  sqrt : R → R
  pow : R → R → R
  sin : R → R
  cos : R → R

section Definitions

/-- The number with the bits `x << 16` of a `float`. The exponent of infinities
and NaNs is read like any other one. -/
def bf16 {R : Type*} [Field R] (x : UInt16) : R :=
  let sign : R := if x.toNat < 2 ^ 15 then 1 else -1
  let exponent : Nat := x.toNat / 2 ^ 7 % 2 ^ 8
  let fraction : R := ((x.toNat % 2 ^ 7 : Nat) : R)
  if exponent = 0 then sign * fraction * ((2 : ℕ) : R) ^ (-133 : ℤ)
  else sign * (128 + fraction) * ((2 : ℕ) : R) ^ ((exponent : ℤ) - 134)

section Rings

variable {R : Type*} [CommRing R] (ofBf16 : UInt16 → R)

/-- The weights are converted by `ofBf16`, which is `bf16` in the forward pass. The
loops run over `y`. -/
def dotProductFloatBf16Vector (x : List R) (y : List UInt16) : R :=
  unrolledSum (fun fy xi => xi * fy) (y.map ofBf16) x

def dotProductFloatFloatVector (x y : List R) : R := dotProductNaive x y

/-- An `ArrayView` of weights with `s1` rows of `s2` numbers. -/
structure Matrix where
  data : Nat → UInt16
  s1 : Nat
  s2 : Nat

/-- `matrix[i]` -/
def Matrix.row (matrix : Matrix) (i : Nat) : List UInt16 :=
  if i ≥ matrix.s1 then [] else (List.range matrix.s2).map fun j => matrix.data (i * matrix.s2 + j)

def matrixMultiplyVectorBf16F32 (matrix : Matrix) (x result : Tensor) (m : Memory R) :
    Except Fault (Memory R) :=
  forRange matrix.s1 (fun i m => do
    let xs ← x.readSpan m (matrix.row i).length
    result.setScalar i (dotProductFloatBf16Vector ofBf16 xs (matrix.row i)) m) m

def scaleVectorFloat (t : Tensor) (scale : R) (m : Memory R) : Except Fault (Memory R) :=
  forRange t.size (fun i m => do
    let x ← t.value m i
    t.setScalar i (scale * x) m) m

def elementWiseFusedScalarMultiplyAddFloatVectorOverwriteDst (t : Tensor) (y : R) (dst : Tensor)
    (m : Memory R) : Except Fault (Memory R) :=
  forRange t.size (fun i m => do
    let x ← t.value m i
    dst.setScalar i (x * y) m) m

def elementWiseFusedScalarMultiplyAddFloat (t : Tensor) (y : R) (dst : Tensor) (m : Memory R) :
    Except Fault (Memory R) :=
  forRange t.size (fun i m => do
    let x ← t.value m i
    let d ← dst.value m i
    dst.setScalar i (x * y + d) m) m

end Rings

variable {R : Type*} [Field R] (F : MathFunctions R)

def floatBf16ScalarAddScalar (x : R) (y : UInt16) : R := x + bf16 y

def rmsNormFloatBf16Weights (x : Tensor) (weights : Nat → UInt16) (result : Tensor) (eps : R)
    (m : Memory R) : Except Fault (Memory R) := do
  let xs ← x.readSpan m x.size
  let mean := dotProductFloatFloatVector xs xs / (x.size : R)
  let scale := 1 / F.sqrt (mean + eps)
  forRange x.size (fun i m => do
    let xi ← x.elem m i
    result.setScalar i (floatBf16ScalarAddScalar 1 (weights i) * scale * xi) m) m

/-- `⊥` is `-inf`. -/
def maxFloatArray [LinearOrder R] (t : Tensor) (m : Memory R) : Except Fault (WithBot R) :=
  forRange t.size (fun i max => do
    let x ← t.value m i
    return if max > x then max else x) ⊥

/-- No element is shifted by `-inf`, the maximum of none. -/
def softmaxVectorFloat [LinearOrder R] (t : Tensor) (m : Memory R) :
    Except Fault (Memory R) := do
  let max ← maxFloatArray t m
  let (sum, m) ← forRange t.size (fun i (sum, m) => do
    let x ← t.value m i
    let v := F.exp (x - max.unbotD 0)
    let m ← t.setScalar i v m
    return (sum + v, m)) ((0 : R), m)
  scaleVectorFloat t (1 / sum) m

def sigmoidScalar (x : R) : R := 1 / (1 + F.exp (-x))

def swigluFloatVector (x y result : Tensor) (m : Memory R) : Except Fault (Memory R) :=
  forRange x.size (fun i m => do
    let xi ← x.value m i
    let yi ← y.value m i
    result.setScalar i (sigmoidScalar F xi * xi * yi) m) m

end Definitions

/-! ## What the operations write -/

section Rings

variable {R : Type*} [CommRing R] (ofBf16 : UInt16 → R) {b b' : Buffer} {p p' n n' : Nat}
  {m : Memory R} {x y f : Nat → R}

/-- The inner product of `x` with the weights `w`. -/
def innerProduct (w : Nat → UInt16) (n : Nat) (x : Nat → R) : R :=
  ∑ j ∈ Finset.range n, x j * ofBf16 (w j)

/-- What an operation in place leaves after `k` rows: each row reads what the ones
before it have written. -/
def productInPlace (matrix : Matrix) (x : Nat → R) : Nat → Nat → R
  | 0 => x
  | k + 1 => Function.update (productInPlace matrix x k) k
      (innerProduct ofBf16 (fun j => matrix.data (k * matrix.s2 + j)) matrix.s2
        (productInPlace matrix x k))

omit [CommRing R] in
/-- A loop that writes one cell after the other. -/
theorem forRange_fill {body : Nat → Memory R → Except Fault (Memory R)}
    (h : ∀ i < n, body i (m.fill b p i f) = .ok ((m.fill b p i f).write b (p + i) (f i))) :
    forRange n body m = .ok (m.fill b p n f) := by
  apply forRange_eq (fun i => m.fill b p i f) Cells.fill_zero
  intro i hi
  rw [h i hi, Cells.fill_write]

theorem dotProductFloatFloatVector_range :
    dotProductFloatFloatVector ((List.range n).map x) ((List.range n).map y) =
      ∑ i ∈ Finset.range n, x i * y i := by
  rw [dotProductFloatFloatVector, dotProductNaive_eq, List.length_map, List.length_range]
  apply Finset.sum_congr rfl
  intro i hi
  have hi := Finset.mem_range.mp hi
  simp [List.getD, hi]

theorem dotProductFloatBf16Vector_range {w : Nat → UInt16} :
    dotProductFloatBf16Vector ofBf16 ((List.range n).map x) ((List.range n).map w) =
      innerProduct ofBf16 w n x := by
  rw [dotProductFloatBf16Vector, unrolledSum_eq, prefixSum, List.length_map, List.length_map,
    List.length_range]
  apply Finset.sum_congr rfl
  intro i hi
  have hi := Finset.mem_range.mp hi
  simp [List.getD, hi]

omit [CommRing R] in
theorem Matrix.row_eq {matrix : Matrix} {i : Nat} (hi : i < matrix.s1) :
    matrix.row i = (List.range matrix.s2).map fun j => matrix.data (i * matrix.s2 + j) :=
  if_neg (by omega)

/-- A matrix is multiplied into a vector that is stored elsewhere. -/
theorem matrixMultiplyVectorBf16F32_eq (matrix : Matrix) {size : Nat}
    (hx : m.Holds b p matrix.s2 x) (hne : b ≠ b') :
    matrixMultiplyVectorBf16F32 ofBf16 matrix (.vector b p size) (.vector b' p' n') m =
      .ok (m.fill b' p' matrix.s1 fun i =>
        innerProduct ofBf16 (fun j => matrix.data (i * matrix.s2 + j)) matrix.s2 x) := by
  apply forRange_fill
  intro i hi
  rw [Matrix.row_eq hi, List.length_map, List.length_range,
    Tensor.readSpan_vector (hx.fill_of_ne hne), ok_bind, dotProductFloatBf16Vector_range]
  rfl

/-- A result that is not one-dimensional is not written. -/
theorem matrixMultiplyVectorBf16F32_of_dim_ne (matrix : Matrix) {size : Nat} {result : Tensor}
    (hx : m.Holds b p matrix.s2 x) (hdim : result.dim ≠ 1) :
    matrixMultiplyVectorBf16F32 ofBf16 matrix (.vector b p size) result m = .ok m := by
  apply forRange_eq (fun _ => m) rfl
  intro i hi
  rw [Matrix.row_eq hi, List.length_map, List.length_range, Tensor.readSpan_vector hx, ok_bind]
  exact Tensor.setScalar_of_dim_ne hdim

/-- A matrix is multiplied into the vector itself. -/
theorem matrixMultiplyVectorBf16F32_inPlace (matrix : Matrix) (hx : m.Holds b p n x)
    (hs1 : matrix.s1 ≤ n) (hs2 : matrix.s2 ≤ n) :
    matrixMultiplyVectorBf16F32 ofBf16 matrix (.vector b p n) (.vector b p n) m =
      .ok (m.fill b p n (productInPlace ofBf16 matrix x matrix.s1)) := by
  apply forRange_eq (fun i => m.fill b p n (productInPlace ofBf16 matrix x i)) (Cells.fill_self hx)
  intro i hi
  have hread : (m.fill b p n (productInPlace ofBf16 matrix x i)).Holds b p matrix.s2
      (productInPlace ofBf16 matrix x i) := Cells.holds_fill.mono hs2
  rw [Matrix.row_eq hi, List.length_map, List.length_range, Tensor.readSpan_vector hread, ok_bind,
    dotProductFloatBf16Vector_range, Tensor.setScalar_vector, Cells.fill_update (by omega)]
  rfl

/-- The rows from `k` on have not been written. -/
theorem productInPlace_of_le {matrix : Matrix} {i k : Nat} (hi : k ≤ i) :
    productInPlace ofBf16 matrix x k i = x i := by
  induction k with
  | zero => rfl
  | succ k ih => rw [productInPlace, Function.update_of_ne (by omega), ih (by omega)]

/-- What a row of the product in place becomes. -/
theorem productInPlace_row {matrix : Matrix} {i k : Nat} (hi : i < k) :
    productInPlace ofBf16 matrix x k i =
      innerProduct ofBf16 (fun j => matrix.data (i * matrix.s2 + j)) matrix.s2
        (productInPlace ofBf16 matrix x i) := by
  induction k with
  | zero => omega
  | succ k ih =>
    rw [productInPlace]
    by_cases hk : i = k
    · rw [hk, Function.update_self]
    · rw [Function.update_of_ne hk, ih (by omega)]

/-- The rows below `k` stay. -/
theorem productInPlace_of_lt {matrix : Matrix} {i k K : Nat} (hi : i < k) (hk : k ≤ K) :
    productInPlace ofBf16 matrix x k i = productInPlace ofBf16 matrix x K i := by
  rw [productInPlace_row ofBf16 hi, productInPlace_row ofBf16 (hi.trans_le hk)]

/-- How a row in place differs from the product: by what the rows before it have
changed. -/
theorem productInPlace_sub {matrix : Matrix} {i K : Nat} (hi : i < K) (hK : K ≤ matrix.s2) :
    productInPlace ofBf16 matrix x K i -
        innerProduct ofBf16 (fun j => matrix.data (i * matrix.s2 + j)) matrix.s2 x =
      ∑ j ∈ Finset.range i, (productInPlace ofBf16 matrix x K j - x j) *
        ofBf16 (matrix.data (i * matrix.s2 + j)) := by
  rw [productInPlace_row ofBf16 hi, innerProduct, innerProduct, ← Finset.sum_sub_distrib]
  symm
  apply Finset.sum_subset_zero_on_sdiff (Finset.range_mono (by omega))
  · intro j hj
    have hij : i ≤ j := by simpa using (Finset.mem_sdiff.mp hj).2
    rw [productInPlace_of_le ofBf16 hij, sub_self]
  · intro j hj
    rw [productInPlace_of_lt ofBf16 (Finset.mem_range.mp hj) hi.le, ← sub_mul]

/-- When a product in place is the product of the vector that was there: if no row
has weights on a change made before it. -/
theorem productInPlace_eq_iff (matrix : Matrix) {K : Nat} (hK : K ≤ matrix.s2) {y : Nat → R}
    (hy : ∀ i, y i = innerProduct ofBf16 (fun j => matrix.data (i * matrix.s2 + j)) matrix.s2 x) :
    (∀ i < K, productInPlace ofBf16 matrix x K i = y i) ↔
      ∀ i < K, ∑ j ∈ Finset.range i, (y j - x j) * ofBf16 (matrix.data (i * matrix.s2 + j)) = 0 := by
  have hsub : ∀ i < K, (∀ j < i, productInPlace ofBf16 matrix x K j = y j) →
      productInPlace ofBf16 matrix x K i - y i =
        ∑ j ∈ Finset.range i, (y j - x j) * ofBf16 (matrix.data (i * matrix.s2 + j)) := by
    intro i hi hbefore
    rw [hy i, productInPlace_sub ofBf16 hi hK]
    apply Finset.sum_congr rfl
    intro j hj
    rw [hbefore j (Finset.mem_range.mp hj)]
  constructor
  · intro h i hi
    rw [← hsub i hi fun j hj => h j (hj.trans hi), h i hi, sub_self]
  · intro h i
    induction i using Nat.strong_induction_on with
    | _ i ih =>
      intro hi
      rw [← sub_eq_zero, hsub i hi fun j hj => ih j hj (hj.trans hi), h i hi]

theorem scaleVectorFloat_eq {scale : R} (hx : m.Holds b p n x) :
    scaleVectorFloat (.vector b p n) scale m = .ok (m.fill b p n fun i => scale * x i) := by
  apply forRange_fill
  intro i hi
  rw [Tensor.value_vector ((Cells.fill_next fun _ => rfl).trans (hx i hi)), ok_bind]
  rfl

theorem elementWiseOverwrite_eq {a : R} (hx : m.Holds b p n x) (hne : b ≠ b') :
    elementWiseFusedScalarMultiplyAddFloatVectorOverwriteDst (.vector b p n) a (.vector b' p' n') m
      = .ok (m.fill b' p' n fun i => x i * a) := by
  apply forRange_fill
  intro i hi
  rw [Tensor.value_vector ((Cells.fill_next fun h => absurd h.symm hne).trans (hx i hi)), ok_bind]
  rfl

theorem elementWiseAdd_eq {a : R} (hx : m.Holds b p n x) (hy : m.Holds b' p' n y) (hne : b ≠ b') :
    elementWiseFusedScalarMultiplyAddFloat (.vector b p n) a (.vector b' p' n') m =
      .ok (m.fill b' p' n fun i => x i * a + y i) := by
  apply forRange_fill
  intro i hi
  rw [Tensor.value_vector ((Cells.fill_next fun h => absurd h.symm hne).trans (hx i hi)), ok_bind,
    Tensor.value_vector ((Cells.fill_next fun _ => rfl).trans (hy i hi)), ok_bind]
  rfl

end Rings

section Fields

variable {R : Type*} [Field R] (F : MathFunctions R) {b b' : Buffer} {p p' n n' : Nat}
  {m : Memory R} {x y : Nat → R}

/-- Element `i` of the normalised vector. -/
def rmsNormed (eps : R) (w : Nat → UInt16) (n : Nat) (x : Nat → R) (i : Nat) : R :=
  (1 + bf16 (w i)) * (1 / F.sqrt ((∑ j ∈ Finset.range n, x j * x j) / n + eps)) * x i

theorem rmsNormFloatBf16Weights_eq (weights : Nat → UInt16) (eps : R) (hx : m.Holds b p n x)
    (hplace : b' = b → p' = p) :
    rmsNormFloatBf16Weights F (.vector b p n) weights (.vector b' p' n') eps m =
      .ok (m.fill b' p' n (rmsNormed F eps weights n x)) := by
  unfold rmsNormFloatBf16Weights
  simp only [Tensor.vector_size, Tensor.readSpan_vector hx, ok_bind,
    dotProductFloatFloatVector_range]
  apply forRange_fill
  intro i hi
  rw [Tensor.elem_vector ((Cells.fill_next hplace).trans (hx i hi)), ok_bind]
  rfl

theorem swigluFloatVector_eq (hx : m.Holds b p n x) (hy : m.Holds b' p' n y) (hne : b' ≠ b) :
    swigluFloatVector F (.vector b p n) (.vector b' p' n') (.vector b p n) m =
      .ok (m.fill b p n fun i => sigmoidScalar F (x i) * x i * y i) := by
  apply forRange_fill
  intro i hi
  rw [Tensor.value_vector ((Cells.fill_next fun _ => rfl).trans (hx i hi)), ok_bind,
    Tensor.value_vector ((Cells.fill_next fun h => absurd h.symm hne).trans (hy i hi)), ok_bind]
  rfl

/-! ## Products with weights of one cell -/

@[simp] theorem bf16_zero : (bf16 0 : R) = 0 := by
  simp [bf16]

@[simp] theorem bf16_one [CharZero R] : (bf16 0x3F80 : R) = 1 := by
  have hbits : (0x3F80 : UInt16).toNat = 0x3F80 := rfl
  simp only [bf16, hbits]
  norm_num

theorem innerProduct_zero {w : Nat → UInt16} (hw : ∀ j < n, w j = 0) :
    innerProduct bf16 w n x = 0 := by
  apply Finset.sum_eq_zero
  intro j hj
  rw [hw j (Finset.mem_range.mp hj), bf16_zero, mul_zero]

theorem innerProduct_single [CharZero R] {w : Nat → UInt16} {k : Nat} (hk : k < n)
    (hone : w k = 0x3F80) (hw : ∀ j < n, j ≠ k → w j = 0) : innerProduct bf16 w n x = x k := by
  rw [innerProduct, Finset.sum_eq_single_of_mem k (Finset.mem_range.mpr hk), hone, bf16_one, mul_one]
  intro j hj hne
  rw [hw j (Finset.mem_range.mp hj) hne, bf16_zero, mul_zero]

end Fields

end Spheres.Qwen
