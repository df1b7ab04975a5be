import Mathlib.Algebra.BigOperators.Fin
import Mathlib.Algebra.Order.BigOperators.Group.Finset
import Spheres.Library.StdVector
import Spheres.Parallel.LocalHeap

/-!
# Merging what the workers found

`find_k_nearest` and `batch_prefill_parallel` copy the outputs of all workers
one behind the other to `internal_buffer`, resize it to their number and sort
it. Only outputs that were copied to places within the old size survive the
resize; places behind it are value-initialised.
-/

namespace Spheres.Parallel

open Library

variable {R : Type*} {n : Nat}

/-- The outputs of the workers, thread after thread. -/
def outputs (heaps : Fin n → LocalHeap R) : List (List (IdTaggedDistance R)) :=
  (List.finRange n).map fun t => (heaps t).live

/-- Copy the outputs to `internal_buffer`, resize it and sort it. -/
def mergeOutputs [Zero R] [LinearOrder R] (internalBuffer : StdVector (IdTaggedDistance R))
    (heaps : Fin n → LocalHeap R) : Option (StdVector (IdTaggedDistance R)) :=
  (internalBuffer.gather (outputs heaps)).map fun r => (r.1.resize .valueInit r.2).sort

/-- Together the outputs are the live entries of all workers. -/
theorem coe_flatten_outputs (heaps : Fin n → LocalHeap R) :
    ((outputs heaps).flatten : Multiset (IdTaggedDistance R)) =
      ∑ t, ((heaps t).live : Multiset (IdTaggedDistance R)) := by
  have hflatten : ∀ l : List (Fin n),
      ((l.map fun t => (heaps t).live).flatten : Multiset (IdTaggedDistance R)) =
        (l.map fun t => ((heaps t).live : Multiset (IdTaggedDistance R))).sum := by
    intro l
    induction l with
    | nil => rfl
    | cons t l ih =>
      rw [List.map_cons, List.flatten_cons, ← Multiset.coe_add, ih, List.map_cons, List.sum_cons]
  rw [Fin.sum_univ_def, outputs, hflatten]

theorem length_flatten_outputs_le {heaps : Fin n → LocalHeap R} {k : Nat}
    (h : ∀ t, (heaps t).live.length ≤ k) : (outputs heaps).flatten.length ≤ n * k := by
  rw [← Multiset.coe_card, coe_flatten_outputs, Multiset.card_sum]
  refine (Finset.sum_le_card_nsmul _ _ k fun t _ => ?_).trans_eq ?_
  · exact h t
  · simp

variable [Zero R] [LinearOrder R]

/-- The merged buffer: the outputs up to the old size, value-initialised
entries in place of the others. -/
theorem mergeOutputs_spec (v : StdVector (IdTaggedDistance R)) (heaps : Fin n → LocalHeap R)
    (hroom : (outputs heaps).flatten.length ≤ v.data.length) :
    ∃ merged, mergeOutputs v heaps = some merged ∧
      merged.size = (outputs heaps).flatten.length ∧
      merged.elems = ((outputs heaps).flatten.take v.size ++
        List.replicate ((outputs heaps).flatten.length - v.size)
          IdTaggedDistance.valueInit).insertionSort (· ≤ ·) := by
  obtain ⟨v', hrun, hsize, hdata⟩ := v.gather_spec (outputs heaps) hroom
  refine ⟨_, by rw [mergeOutputs, hrun, Option.map_some], rfl, ?_⟩
  have htake : v'.elems.take (outputs heaps).flatten.length =
      (outputs heaps).flatten.take v.size := by
    rw [StdVector.elems, hsize, List.take_take, hdata, Nat.min_comm, ← List.take_take,
      List.take_left' rfl]
  rw [StdVector.elems_sort, StdVector.elems_resize, htake, hsize]

/-- The memory of the buffer does not shrink. -/
theorem length_data_mergeOutputs {v merged : StdVector (IdTaggedDistance R)}
    {heaps : Fin n → LocalHeap R} (hroom : (outputs heaps).flatten.length ≤ v.data.length)
    (hrun : mergeOutputs v heaps = some merged) : v.data.length ≤ merged.data.length := by
  obtain ⟨v', hgather, -, hdata⟩ := v.gather_spec (outputs heaps) hroom
  rw [mergeOutputs, hgather, Option.map_some] at hrun
  obtain rfl := Option.some.inj hrun
  have hlength := congrArg List.length hdata
  rw [List.length_append, List.length_drop] at hlength
  have hresize := (StdVector.le_length_resize IdTaggedDistance.valueInit
    (outputs heaps).flatten.length v').2
  rw [StdVector.length_data_sort]
  show v.data.length ≤ (StdVector.resize .valueInit (outputs heaps).flatten.length v').data.length
  omega

/-- If `{}` is all that is behind the old size, the resize loses nothing. -/
theorem mergeOutputs_of_fit {v merged : StdVector (IdTaggedDistance R)}
    {heaps : Fin n → LocalHeap R} (hroom : (outputs heaps).flatten.length ≤ v.data.length)
    (hfit : ∀ e ∈ (outputs heaps).flatten.drop v.size, e = .valueInit)
    (hrun : mergeOutputs v heaps = some merged) :
    merged.elems = (outputs heaps).flatten.insertionSort (· ≤ ·) := by
  obtain ⟨merged', hrun', -, helems⟩ := mergeOutputs_spec v heaps hroom
  obtain rfl : merged' = merged := Option.some.inj (hrun'.symm.trans hrun)
  have hdrop : (outputs heaps).flatten.drop v.size =
      List.replicate ((outputs heaps).flatten.length - v.size) .valueInit := by
    rw [List.eq_replicate_iff]
    exact ⟨List.length_drop, hfit⟩
  rw [helems, ← hdrop, List.take_append_drop]

/-- With room for all outputs the merged buffer is the sorted list of them. -/
theorem mergeOutputs_of_le (v : StdVector (IdTaggedDistance R)) (heaps : Fin n → LocalHeap R)
    (hroom : (outputs heaps).flatten.length ≤ v.size) :
    ∃ merged, mergeOutputs v heaps = some merged ∧
      merged.elems = (outputs heaps).flatten.insertionSort (· ≤ ·) := by
  obtain ⟨merged, hrun, -⟩ := mergeOutputs_spec v heaps (hroom.trans v.size_le)
  refine ⟨merged, hrun, mergeOutputs_of_fit (hroom.trans v.size_le) ?_ hrun⟩
  rw [List.drop_of_length_le hroom]
  simp

end Spheres.Parallel
