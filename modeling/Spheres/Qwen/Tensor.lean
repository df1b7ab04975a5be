import Spheres.Library.Cells
import Spheres.Library.ForRange

/-!
# Tensors over allocated buffers

A `Tensor` is a view of a buffer from `malloc`: a length, the place it begins at,
a number of dimensions and a shape. Slices of a tensor share its buffer. What
`malloc` returns holds nothing the program has written, so the memory is made of
cells that may have no value.
-/

namespace Spheres.Qwen

open Library

/-- The eight buffers of `calculate_qwen_embedding`. -/
inductive Buffer
  | hiddenStates
  | residual
  | keyCache
  | valueCache
  | q
  | attention
  | mlpBuffer1
  | mlpBuffer2
deriving DecidableEq, Repr

/-- What ends a forward pass early. -/
inductive Fault
  /-- A cell is read that has not been written since its buffer was allocated. -/
  | unwritten (buffer : Buffer) (index : Nat)
  | nullData
  /-- `value()` of an empty optional. -/
  | badOptionalAccess
deriving DecidableEq, Repr

abbrev Memory (R : Type*) := Cells Buffer R

/-- The memory after `malloc`, where nothing has been written. -/
def Memory.blank (R : Type*) : Memory R := fun _ _ => none

/-- A memory where every cell holds something. -/
def Memory.ofContents {R : Type*} (c : Buffer → Nat → R) : Memory R := fun b i => some (c b i)

structure Tensor where
  size : Nat
  data : Option (Buffer × Nat)
  dim : Nat
  s1 : Nat := 0
  s2 : Nat := 1
  s3 : Nat := 1
  s4 : Nat := 1
deriving DecidableEq, Repr

namespace Tensor

/-- `Tensor()` -/
def null : Tensor where
  size := 0
  data := none
  dim := 0

/-- `Tensor(size)`, which allocates the buffer `b`. -/
def malloc (b : Buffer) (size : Nat) : Tensor where
  size := size
  data := some (b, 0)
  dim := 1
  s1 := size

/-- The number of dimensions of a slice. -/
def lut (dim : Nat) : Nat := [0, 1, 1, 2, 3].getD dim 0

/-- `operator[]` -/
def slice (t : Tensor) (index : Nat) : Tensor :=
  let nElements := t.s2 * t.s3 * t.s4
  let offset := index * nElements
  match t.data with
  | none => null
  | some (b, p) =>
    if offset ≥ t.size then null
    else
      { size := nElements, data := some (b, p + offset), dim := lut t.dim,
        s1 := t.s2, s2 := t.s3, s3 := t.s4, s4 := 1 }

def flatten (t : Tensor) : Tensor := { t with s1 := t.size, s2 := 1, s3 := 1, s4 := 1, dim := 1 }

/-- `reshape` to two dimensions -/
def reshape2 (t : Tensor) (s1 s2 : Nat) : Tensor :=
  if t.data ≠ none ∧ s1 * s2 = t.size then
    { t with s1 := s1, s2 := s2, s3 := 1, s4 := 1, dim := 2 }
  else t

/-- `reshape` to three dimensions -/
def reshape3 (t : Tensor) (s1 s2 s3 : Nat) : Tensor :=
  if t.data ≠ none ∧ s1 * s2 * s3 = t.size then
    { t with s1 := s1, s2 := s2, s3 := s3, s4 := 1, dim := 3 }
  else t

variable {R : Type*}

/-- Element `i` of `get_span_view`. -/
def elem (t : Tensor) (m : Memory R) (i : Nat) : Except Fault R :=
  match t.data with
  | none => .error .nullData
  | some (b, p) =>
    match m b (p + i) with
    | none => .error (.unwritten b (p + i))
    | some x => .ok x

def setScalar (t : Tensor) (index : Nat) (value : R) (m : Memory R) : Except Fault (Memory R) :=
  if t.dim = 1 then
    match t.data with
    | none => .error .nullData
    | some (b, p) => .ok (m.write b (p + index) value)
  else .ok m

def getScalar (t : Tensor) (m : Memory R) (index : Nat) : Except Fault (Option R) :=
  if t.dim = 1 then some <$> t.elem m index else .ok none

/-- `get_scalar(..).value()` -/
def value (t : Tensor) (m : Memory R) (index : Nat) : Except Fault R := do
  match ← t.getScalar m index with
  | none => .error .badOptionalAccess
  | some x => .ok x

/-- The first `n` elements of `get_span_view`. -/
def readSpan (t : Tensor) (m : Memory R) (n : Nat) : Except Fault (List R) :=
  (List.range n).mapM (t.elem m)

/-! ## Views of a known place -/

/-- A one-dimensional tensor at `p` of `b`. -/
def vector (b : Buffer) (p size : Nat) : Tensor where
  size := size
  data := some (b, p)
  dim := 1
  s1 := size

variable {b : Buffer} {p i n size s1 s2 : Nat} {m : Memory R} {x : Nat → R} {v : R}

theorem malloc_eq : malloc b size = vector b 0 size := rfl

@[simp] theorem vector_size : (vector b p size).size = size := rfl

/-- A row of a vector that is seen as a matrix. -/
theorem slice_reshape2 (h : s1 * s2 = size) (hi : i < s1) (h2 : 0 < s2) :
    ((vector b p size).reshape2 s1 s2).slice i = vector b (p + i * s2) s2 := by
  have hlt : i * s2 < size := h ▸ Nat.mul_lt_mul_of_pos_right hi h2
  rw [reshape2, if_pos ⟨nofun, h⟩]
  simp only [slice, vector, Nat.mul_one]
  rw [if_neg (by omega)]
  rfl

/-- A row of a buffer that is seen as a matrix. -/
theorem slice_malloc_reshape2 (b : Buffer) (h : s1 * s2 = size) (hi : i < s1) (h2 : 0 < s2) :
    ((malloc b size).reshape2 s1 s2).slice i = vector b (i * s2) s2 := by
  rw [malloc_eq, slice_reshape2 h hi h2, Nat.zero_add]

/-- A row of a buffer with three dimensions. -/
theorem slice_slice_malloc_reshape3 (b : Buffer) {l s3 : Nat} (h : s1 * s2 * s3 = size)
    (hl : l < s1) (hi : i < s2) (h3 : 0 < s3) :
    (((malloc b size).reshape3 s1 s2 s3).slice l).slice i = vector b ((l * s2 + i) * s3) s3 := by
  have hrows : i * s3 < s2 * s3 := Nat.mul_lt_mul_of_pos_right hi h3
  have hlayers : l * (s2 * s3) < size := by
    rw [← h, Nat.mul_assoc]
    exact Nat.mul_lt_mul_of_pos_right hl (by omega)
  rw [reshape3, if_pos ⟨nofun, h⟩]
  simp only [slice, malloc, Nat.mul_one, Nat.zero_add]
  rw [if_neg (by omega)]
  simp only [Nat.mul_one]
  rw [if_neg (by omega), Nat.add_mul, Nat.mul_assoc]
  rfl

theorem reshape2_dim_ne (h : s1 * s2 = size) :
    ((vector b p size).reshape2 s1 s2).dim ≠ 1 := by
  rw [reshape2, if_pos ⟨nofun, h⟩]
  exact nofun

theorem flatten_reshape2 : ((vector b p size).reshape2 s1 s2).flatten = vector b p size := by
  unfold reshape2
  split <;> rfl

theorem setScalar_vector :
    (vector b p size).setScalar i v m = .ok (m.write b (p + i) v) := rfl

/-- A tensor that is not one-dimensional is not written. -/
theorem setScalar_of_dim_ne {t : Tensor} (h : t.dim ≠ 1) : t.setScalar i v m = .ok m := if_neg h

theorem elem_vector (h : m b (p + i) = some v) : (vector b p size).elem m i = .ok v := by
  show (match m b (p + i) with | none => _ | some x => _) = _
  rw [h]

theorem elem_unwritten (h : m b (p + i) = none) :
    (vector b p size).elem m i = .error (.unwritten b (p + i)) := by
  show (match m b (p + i) with | none => _ | some x => _) = _
  rw [h]

theorem value_vector (h : m b (p + i) = some v) : (vector b p size).value m i = .ok v := by
  show (some <$> (vector b p size).elem m i >>= _) = _
  rw [elem_vector h]
  rfl

theorem readSpan_vector (h : m.Holds b p n x) :
    (vector b p size).readSpan m n = .ok ((List.range n).map x) :=
  mapM_ok fun i hi => elem_vector (h i (List.mem_range.mp hi))

theorem readSpan_unwritten (hn : 0 < n) (h : m b p = none) :
    (vector b p size).readSpan m n = .error (.unwritten b p) :=
  mapM_range_error hn (elem_unwritten h)

end Tensor

end Spheres.Qwen
