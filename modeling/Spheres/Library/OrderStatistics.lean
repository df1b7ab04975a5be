import Mathlib.Data.List.NodupEquivFin
import Mathlib.Data.List.Sort
import Mathlib.Order.WellFounded

/-!
# Order statistics

The entry at position `i` of a sorted list has at least `i + 1` entries at or below it,
at most `i` entries are at or below anything smaller, and the entries ascend with the
position.
-/

namespace Spheres.Library

variable {α : Type*} [LinearOrder α] {xs : List α}

theorem getElem?_sorted_mem {i : Nat} {x : α} (h : (xs.insertionSort (· ≤ ·))[i]? = some x) :
    x ∈ xs :=
  (List.mem_insertionSort _).mp (List.mem_of_getElem? h)

theorem sorted_le_sorted {i j : Nat} (hij : i ≤ j) {x y : α}
    (hx : (xs.insertionSort (· ≤ ·))[i]? = some x) (hy : (xs.insertionSort (· ≤ ·))[j]? = some y) :
    x ≤ y := by
  obtain ⟨hi, rfl⟩ := List.getElem?_eq_some_iff.mp hx
  obtain ⟨hj, rfl⟩ := List.getElem?_eq_some_iff.mp hy
  rcases hij.eq_or_lt with rfl | hlt
  · exact le_rfl
  · exact List.pairwise_iff_getElem.mp (List.pairwise_insertionSort (· ≤ ·) xs) i j hi hj hlt

/-- The first entry is the least. -/
theorem sorted_zero_le {x y : α} (hx : (xs.insertionSort (· ≤ ·))[0]? = some x) (hy : y ∈ xs) :
    x ≤ y := by
  obtain ⟨j, hj⟩ := List.mem_iff_getElem?.mp ((List.mem_insertionSort (· ≤ ·)).mpr hy)
  exact sorted_le_sorted (Nat.zero_le j) hx hj

/-- How many entries are at or below the one at a position. -/
theorem lt_countP_le {i : Nat} {x : α} (hx : (xs.insertionSort (· ≤ ·))[i]? = some x) :
    i < xs.countP (· ≤ x) := by
  have hlt : i < (xs.insertionSort (· ≤ ·)).length := (List.getElem?_eq_some_iff.mp hx).1
  have hall : ∀ y ∈ (xs.insertionSort (· ≤ ·)).take (i + 1), decide (y ≤ x) = true := by
    intro y hy
    obtain ⟨j, hj, rfl⟩ := List.mem_take_iff_getElem.mp hy
    exact decide_eq_true (sorted_le_sorted (by omega) (List.getElem?_eq_getElem (by omega)) hx)
  calc i < ((xs.insertionSort (· ≤ ·)).take (i + 1)).length := by
        rw [List.length_take]
        omega
    _ = ((xs.insertionSort (· ≤ ·)).take (i + 1)).countP (· ≤ x) :=
        (List.countP_eq_length.mpr hall).symm
    _ ≤ (xs.insertionSort (· ≤ ·)).countP (· ≤ x) := (List.take_sublist _ _).countP_le
    _ = xs.countP (· ≤ x) := (List.perm_insertionSort _ _).countP_eq _

/-- How many entries are at or below something smaller than the one at a position. -/
theorem countP_le_of_lt {i : Nat} {x y : α} (hx : (xs.insertionSort (· ≤ ·))[i]? = some x)
    (hy : y < x) : xs.countP (· ≤ y) ≤ i := by
  have hnone : ((xs.insertionSort (· ≤ ·)).drop i).countP (· ≤ y) = 0 := by
    rw [List.countP_eq_zero]
    intro z hz
    obtain ⟨j, hj⟩ := List.mem_iff_getElem?.mp hz
    rw [List.getElem?_drop] at hj
    have hle := sorted_le_sorted (Nat.le_add_right i j) hx hj
    exact fun h => absurd (of_decide_eq_true h) (not_le.mpr (hy.trans_le hle))
  calc xs.countP (· ≤ y)
      = (xs.insertionSort (· ≤ ·)).countP (· ≤ y) := ((List.perm_insertionSort _ _).countP_eq _).symm
    _ = ((xs.insertionSort (· ≤ ·)).take i).countP (· ≤ y) +
        ((xs.insertionSort (· ≤ ·)).drop i).countP (· ≤ y) := by
        rw [← List.countP_append, List.take_append_drop]
    _ ≤ ((xs.insertionSort (· ≤ ·)).take i).length := by
        rw [hnone]
        exact List.countP_le_length
    _ ≤ i := by
        rw [List.length_take]
        exact Nat.min_le_left _ _

/-- A part of a sorted list has at every position an entry as large as the whole list. -/
theorem le_of_sublist {l l' : List α} (h : l.Sublist l') (hsorted : l'.Pairwise (· ≤ ·)) {i : Nat}
    {x y : α} (hx : l[i]? = some x) (hy : l'[i]? = some y) : y ≤ x := by
  obtain ⟨f, hf⟩ := List.sublist_iff_exists_orderEmbedding_getElem?_eq.mp h
  rw [hf i] at hx
  obtain ⟨hi, rfl⟩ := List.getElem?_eq_some_iff.mp hy
  obtain ⟨hfi, rfl⟩ := List.getElem?_eq_some_iff.mp hx
  rcases f.strictMono.le_apply.eq_or_lt with heq | hlt
  · exact le_of_eq (getElem_congr_idx heq)
  · exact List.pairwise_iff_getElem.mp hsorted i (f i) hi hfi hlt

end Spheres.Library
