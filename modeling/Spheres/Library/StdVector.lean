import Mathlib.Data.List.Sort

/-!
# Vectors with spare room

A `std::vector` owns memory for more elements than it has. Growing it within
that memory value-initialises the new elements, and bytes copied behind its
last element are not elements of it.
-/

namespace Spheres.Library

/-- The owned memory and the number of elements in it. -/
structure StdVector (α : Type*) where
  data : List α
  size : Nat
  size_le : size ≤ data.length

namespace StdVector

variable {α : Type*}

def elems (v : StdVector α) : List α := v.data.take v.size

/-- An empty vector with memory for `capacity` elements. -/
def reserve (junk : α) (capacity : Nat) : StdVector α :=
  ⟨List.replicate capacity junk, 0, Nat.zero_le _⟩

/-- `resize`: elements up to the new size that did not exist are
value-initialised; memory is extended as far as it is needed. -/
def resize (valueInit : α) (n : Nat) (v : StdVector α) : StdVector α where
  data := v.data.take v.size ++ List.replicate (n - v.size) valueInit ++ v.data.drop (max n v.size)
  size := n
  size_le := by
    have := v.size_le
    simp only [List.length_append, List.length_take, List.length_replicate, List.length_drop]
    omega

/-- `memcpy` to the memory of the vector; past its end there is none. -/
def memcpy (offset : Nat) (src : List α) (v : StdVector α) : Option (StdVector α) :=
  if h : offset + src.length ≤ v.data.length then
    some
      { data := v.data.take offset ++ src ++ v.data.drop (offset + src.length)
        size := v.size
        size_le := by
          have := v.size_le
          simp only [List.length_append, List.length_take, List.length_drop]
          omega }
  else none

/-- Apply a length-preserving function, such as a sort, to the elements. -/
def sort [LinearOrder α] (v : StdVector α) : StdVector α where
  data := v.elems.insertionSort (· ≤ ·) ++ v.data.drop v.size
  size := v.size
  size_le := by
    simp only [elems, List.length_append, List.length_insertionSort, List.length_take,
      List.length_drop]
    have := v.size_le
    omega

variable {v : StdVector α}

@[simp] theorem length_elems (v : StdVector α) : v.elems.length = v.size := by
  rw [elems, List.length_take, Nat.min_eq_left v.size_le]

theorem elems_resize (d : α) (n : Nat) (v : StdVector α) :
    (v.resize d n).elems = v.elems.take n ++ List.replicate (n - v.size) d := by
  have hlen := v.length_elems
  have hdata : (v.resize d n).elems =
      (v.elems ++ List.replicate (n - v.size) d ++ v.data.drop (max n v.size)).take n := rfl
  rw [hdata]
  rcases Nat.le_total n v.size with hle | hle
  · rw [Nat.sub_eq_zero_of_le hle, List.replicate_zero, List.append_nil, List.append_nil,
      List.take_append_of_le_length (hle.trans_eq hlen.symm)]
  · rw [List.take_left' (by rw [List.length_append, hlen, List.length_replicate]; omega),
      List.take_of_length_le (hlen.trans_le hle)]

/-- Memory that holds the elements is not given up. -/
theorem le_length_resize (d : α) (n : Nat) (v : StdVector α) :
    n ≤ (v.resize d n).data.length ∧ v.data.length ≤ (v.resize d n).data.length := by
  refine ⟨(v.resize d n).size_le, ?_⟩
  have := v.size_le
  simp only [resize, List.length_append, List.length_take, List.length_replicate,
    List.length_drop]
  omega

theorem elems_sort [LinearOrder α] (v : StdVector α) :
    v.sort.elems = v.elems.insertionSort (· ≤ ·) := by
  rw [elems, sort]
  exact List.take_left' (by rw [List.length_insertionSort, length_elems])

theorem length_data_sort [LinearOrder α] (v : StdVector α) :
    v.sort.data.length = v.data.length := by
  have := v.size_le
  simp only [sort, List.length_append, List.length_insertionSort, length_elems, List.length_drop]
  omega

/-! ## Copying blocks one behind the other -/

/-- Copy the blocks one behind the other to the start of the memory; the second
component is the offset behind the last one. -/
def gather (blocks : List (List α)) (v : StdVector α) : Option (StdVector α × Nat) :=
  blocks.foldlM (fun (r : StdVector α × Nat) block =>
    (r.1.memcpy r.2 block).map fun v => (v, r.2 + block.length)) (v, 0)

theorem memcpy_spec {offset : Nat} {src : List α} (h : offset + src.length ≤ v.data.length) :
    ∃ v', v.memcpy offset src = some v' ∧ v'.size = v.size ∧
      v'.data.length = v.data.length ∧
      v'.data = v.data.take offset ++ src ++ v.data.drop (offset + src.length) := by
  refine ⟨_, dif_pos h, rfl, ?_, rfl⟩
  simp only [List.length_append, List.length_take, List.length_drop]
  omega

theorem gather_spec (blocks : List (List α)) (h : blocks.flatten.length ≤ v.data.length) :
    ∃ v', v.gather blocks = some (v', blocks.flatten.length) ∧ v'.size = v.size ∧
      v'.data = blocks.flatten ++ v.data.drop blocks.flatten.length := by
  suffices hgen : ∀ (front : List α) (v : StdVector α),
      v.data.take front.length = front → front.length + blocks.flatten.length ≤ v.data.length →
      ∃ v', blocks.foldlM (fun (r : StdVector α × Nat) block =>
          (r.1.memcpy r.2 block).map fun v => (v, r.2 + block.length)) (v, front.length) =
          some (v', front.length + blocks.flatten.length) ∧ v'.size = v.size ∧
        v'.data = front ++ blocks.flatten ++
          v.data.drop (front.length + blocks.flatten.length) by
    obtain ⟨v', hrun, hsize, hdata⟩ := hgen [] v rfl (by simpa using h)
    exact ⟨v', by simpa [gather] using hrun, hsize, by simpa using hdata⟩
  clear h
  induction blocks with
  | nil =>
    intro front v hfront hle
    refine ⟨v, rfl, rfl, ?_⟩
    rw [List.flatten_nil, List.append_nil, List.length_nil, Nat.add_zero]
    conv_lhs => rw [← List.take_append_drop front.length v.data, hfront]
  | cons block blocks ih =>
    intro front v hfront hle
    rw [List.flatten_cons, List.length_append] at hle
    obtain ⟨v₁, hcopy, hsize₁, hlen₁, hdata₁⟩ := memcpy_spec
      (show front.length + block.length ≤ v.data.length by omega)
    have hfront₁ : v₁.data.take (front ++ block).length = front ++ block := by
      rw [hdata₁, hfront]
      exact List.take_left' rfl
    obtain ⟨v', hrun, hsize, hdata⟩ := ih (front ++ block) v₁ hfront₁
      (by rw [List.length_append]; omega)
    refine ⟨v', ?_, hsize.trans hsize₁, ?_⟩
    · rw [List.foldlM_cons, hcopy]
      rw [List.length_append] at hrun
      simp only [List.flatten_cons, List.length_append, ← Nat.add_assoc]
      exact hrun
    · have hdrop : v₁.data.drop (front ++ block).length =
          v.data.drop (front.length + block.length) := by
        rw [hdata₁, hfront]
        exact List.drop_left' rfl
      rw [hdata, ← List.drop_drop, hdrop, List.drop_drop, List.flatten_cons, List.length_append,
        ← List.append_assoc, Nat.add_assoc]

end StdVector

end Spheres.Library
