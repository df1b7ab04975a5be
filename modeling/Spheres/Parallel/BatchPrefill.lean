import Spheres.Execution.BulkLoad
import Spheres.Library.MorselLoop
import Spheres.Parallel.LocalHeap
import Spheres.Parallel.Outputs

/-!
# Choosing the vectors of a page with many threads

The workers of a `BatchPrefill` task share out the positions of the vectors
that are left, keep the nearest to the first vector in one heap each, and
publish their heap tops as a common cut-off. Positions ascend within a worker,
so of two vectors at the same distance it keeps the one with the smaller
position.
-/

namespace Spheres.Parallel

open Execution Library Library.Selection Library.MorselLoop

variable {V R : Type*}

/-- The context of a `BatchPrefill` task. -/
structure BatchPrefill (V R : Type*) where
  distFunc : V → V → R
  /-- `generic_input4`: the vectors that are left. -/
  vectors : List V
  maxNumVectorsInPage : Nat
  maxMorsel : Nat
  morselStep : Nat

namespace BatchPrefill

variable [LinearOrder R] (T : BatchPrefill V R)

/-- The body of the loop over one morsel. -/
def scanVector (anchor : V) (currentGlobalMax : WithTop R) (h : LocalHeap R) (current : Nat) :
    Option (LocalHeap R) :=
  (T.vectors[current]?).bind fun v =>
  let dist := T.distFunc v anchor
  if currentGlobalMax < dist then some h
  else if h.nOutputs < T.maxNumVectorsInPage then h.push ⟨dist, current⟩
  else h.offerFull T.maxNumVectorsInPage ⟨dist, current⟩

/-- `batch_prefill_worker`. -/
def batchPrefillWorker : Loop R (LocalHeap R) where
  step := T.morselStep
  limit := T.maxMorsel
  scan bound lo hi h := (T.vectors[0]?).bind fun anchor =>
    (List.range' lo (hi - lo)).foldlM (T.scanVector anchor bound) h
  top h := h.top.map (·.first)
  retire _ := 0

section Keeps

variable [Zero R]

/-- The live entries of a worker cover the vectors it has seen, and no cell of
its buffer holds a negative distance. -/
structure Keeps (pruned : IdTaggedDistance R → Prop) (bufferSize : Nat) (v : Multiset Nat)
    (h : LocalHeap R) : Prop where
  valid : h.Valid T.maxNumVectorsInPage bufferSize
  covers : CoversExcept id pruned T.maxNumVectorsInPage h.live
    (v.map (toFirst T.distFunc T.vectors))
  nonneg : ∀ e ∈ h.heap, 0 ≤ e.first

/-- The task is well formed: it treats all vectors, a page takes at least one,
and the distances are exact. -/
structure Reads (dist : DistFunc V R) : Prop where
  distFunc : T.distFunc = dist
  limit : T.maxMorsel = T.vectors.length
  max_pos : 0 < T.maxNumVectorsInPage

variable {T} {dist : DistFunc V R} {bufferSize : Nat} {pruned : IdTaggedDistance R → Prop}
  {Q : WithTop R → Prop} {b : WithTop R} {v : Multiset Nat} {h : LocalHeap R}

/-- One vector. -/
theorem scanVector_keeps (hr : T.Reads dist) {anchor : V} (ha : T.vectors.head? = some anchor)
    {i : Nat} (hi : i < T.vectors.length) (hv : ∀ j ∈ v, j < i)
    (hprune : b < (toFirst T.distFunc T.vectors i).first →
      pruned (toFirst T.distFunc T.vectors i))
    (hkeeps : T.Keeps pruned bufferSize v h) :
    ∃ h', T.scanVector anchor b h i = some h' ∧ T.Keeps pruned bufferSize (i ::ₘ v) h' := by
  have hget := List.getElem?_eq_getElem hi
  have hentry : (⟨T.distFunc T.vectors[i] anchor, i⟩ : IdTaggedDistance R) =
      toFirst T.distFunc T.vectors i := by
    ext
    · rw [toFirst_first hget ha]
    · rfl
  have hfirst : T.distFunc T.vectors[i] anchor = (toFirst T.distFunc T.vectors i).first :=
    congrArg IdTaggedDistance.first hentry
  have hnew : 0 ≤ (toFirst T.distFunc T.vectors i).first := by
    rw [hr.distFunc]
    exact toFirst_nonneg dist T.vectors i
  have hnonneg : ∀ h' : LocalHeap R,
      (∀ x ∈ h'.heap, x = toFirst T.distFunc T.vectors i ∨ x ∈ h.heap) →
        ∀ x ∈ h'.heap, 0 ≤ x.first := by
    intro h' hcells x hx
    rcases hcells x hx with rfl | hx
    · exact hnew
    · exact hkeeps.nonneg x hx
  by_cases hbeyond : b < (toFirst T.distFunc T.vectors i).first
  · refine ⟨h, ?_, hkeeps.valid, ?_, hkeeps.nonneg⟩
    · simp only [scanVector, hget, Option.bind_some, hfirst, if_pos hbeyond]
    · rw [Multiset.map_cons, ← Multiset.singleton_add]
      refine hkeeps.covers.skip _ fun y hy => Or.inr ?_
      obtain rfl := Multiset.mem_singleton.mp hy
      exact hprune hbeyond
  · by_cases hlt : h.nOutputs < T.maxNumVectorsInPage
    · obtain ⟨h', hrun, hv', -, hcov⟩ := hkeeps.valid.push_covers hlt
        (toFirst T.distFunc T.vectors i) hkeeps.covers
      refine ⟨h', ?_, hv', by rwa [Multiset.map_cons], hnonneg h' (LocalHeap.mem_push hrun)⟩
      simp only [scanVector, hget, Option.bind_some, hfirst, if_neg hbeyond, if_pos hlt]
      rw [← hfirst, hentry]
      exact hrun
    · have hfull : h.nOutputs = T.maxNumVectorsInPage :=
        le_antisymm hkeeps.valid.le (Nat.le_of_not_lt hlt)
      obtain ⟨h', hrun, hv', -, hcov⟩ := hkeeps.valid.offerFull_covers hr.max_pos hfull
        monotone_id (toFirst T.distFunc T.vectors i) (fun z hz hle => by
          obtain ⟨j, hj, rfl⟩ := Multiset.mem_map.mp
            (Multiset.mem_of_le hkeeps.covers.le (Multiset.mem_coe.mpr hz))
          rcases hle.lt_or_eq with hlt | heq
          · exact IdTaggedDistance.le_iff.mpr (Or.inl hlt)
          · exact IdTaggedDistance.le_iff.mpr (Or.inr ⟨heq, (hv j hj).le⟩)) hkeeps.covers
      refine ⟨h', ?_, hv', by rwa [Multiset.map_cons], hnonneg h' (LocalHeap.mem_offerFull hrun)⟩
      simp only [scanVector, hget, Option.bind_some, hfirst, if_neg hbeyond, if_neg hlt]
      rw [← hfirst, hentry]
      exact hrun

/-- The workers of the task meet the obligations of the loop. -/
theorem sound (hr : T.Reads dist) (hstep : 0 < T.morselStep)
    (hprune : ∀ b, Q b → ∀ i, b < (toFirst T.distFunc T.vectors i).first →
      pruned (toFirst T.distFunc T.vectors i))
    {guard : LocalHeap R → Prop}
    (hpublish : ∀ v h r, v ≤ Multiset.Ico 0 T.maxMorsel → T.Keeps pruned bufferSize v h →
      guard h → T.batchPrefillWorker.top h = some r → Q r) :
    T.batchPrefillWorker.Sound (T.Keeps pruned bufferSize) Q guard where
  step_pos := hstep
  scan := by
    intro v b lo h hlo hv hP hQ
    have hlt := Loop.lt_claimEnd (L := T.batchPrefillWorker) hstep hlo
    have hend : T.batchPrefillWorker.claimEnd lo ≤ T.maxMorsel := Nat.min_le_left _ _
    rw [hr.limit] at hend
    obtain ⟨anchor, rest, hvectors⟩ := List.exists_cons_of_length_pos
      (l := T.vectors) (by omega)
    have ha : T.vectors.head? = some anchor := by rw [hvectors, List.head?_cons]
    obtain ⟨h', hrun, hP'⟩ := Loop.foldlM_positions (P := T.Keeps pruned bufferSize)
      (f := T.scanVector anchor b) (n := T.batchPrefillWorker.claimEnd lo - lo)
      (fun v h i _ hi hbelow hP => scanVector_keeps hr ha (by omega) hbelow (hprune b hQ i) hP)
      hv hP
    refine ⟨h', ?_, ?_⟩
    · show ((T.vectors[0]?).bind fun anchor => _) = _
      rw [← List.head?_eq_getElem?, ha, Option.bind_some]
      exact hrun
    · rwa [Nat.add_sub_cancel' hlt.le] at hP'
  top := by
    intro v h hP
    obtain ⟨e, he⟩ := hP.valid.exists_top hr.max_pos
    exact ⟨e.first, by simp only [batchPrefillWorker, he, Option.map_some]⟩
  publish := hpublish

/-- When only full heaps lower the cut-off, it stays at or above the distance of
the last vector for the page, and what it prunes does not belong there. -/
theorem exists_cutoff (hr : T.Reads dist) (bufferSize : Nat) :
    ∃ (pruned : IdTaggedDistance R → Prop) (Q : WithTop R → Prop),
      (∀ b, Q b → ∀ i, b < (toFirst T.distFunc T.vectors i).first →
        pruned (toFirst T.distFunc T.vectors i)) ∧
      Q ⊤ ∧
      (∀ v h r, v ≤ Multiset.Ico 0 T.maxMorsel → T.Keeps pruned bufferSize v h →
        h.nOutputs = T.maxNumVectorsInPage → T.batchPrefillWorker.top h = some r → Q r) ∧
      ∀ kept, CoversExcept id pruned T.maxNumVectorsInPage kept
          (candidates T.distFunc T.vectors) →
        Covers id T.maxNumVectorsInPage kept (candidates T.distFunc T.vectors) := by
  have hseen : ∀ {v : Multiset Nat}, v ≤ Multiset.Ico 0 T.maxMorsel →
      v.map (toFirst T.distFunc T.vectors) ≤ candidates T.distFunc T.vectors := by
    intro v hv
    rw [candidates, ← hr.limit]
    exact Multiset.map_le_map hv
  by_cases hmany : T.maxNumVectorsInPage ≤ (candidates T.distFunc T.vectors).card
  · obtain ⟨θ, hθ⟩ : ∃ θ, IsKth IdTaggedDistance.first T.maxNumVectorsInPage
        (candidates T.distFunc T.vectors) θ := exists_isKth hr.max_pos hmany
    refine ⟨fun e => θ < e.first, fun b => ↑θ ≤ b, ?_, le_top, ?_, ?_⟩
    · intro b hb i hi
      exact WithTop.coe_lt_coe.mp (hb.trans_lt hi)
    · intro v h r hv hkeeps hfull hr'
      exact WithTop.coe_le_coe.mpr (hkeeps.valid.isKth_le_top hr.max_pos hfull
        (hkeeps.covers.le.trans (hseen hv)) hθ hr')
    · intro kept hcov
      refine hcov.covers hθ.1 (fun y hy z hz => ?_) (fun x z hz hxz => ?_)
        (fun y hy => not_le.mpr hy)
      · exact (IdTaggedDistance.lt_iff.mpr (Or.inl (hz.trans_lt hy))).le
      · exact (IdTaggedDistance.first_le_of_le hxz).trans hz
  · -- with fewer vectors no heap is ever full
    refine ⟨fun _ => False, fun b => b = ⊤, ?_, rfl, ?_, fun kept hcov => hcov⟩
    · rintro b rfl i hi
      exact absurd le_top hi.not_ge
    · intro v h r hv hkeeps hfull _
      have hle := Multiset.card_le_card (hkeeps.covers.le.trans (hseen hv))
      rw [hkeeps.valid.card_live, hfull] at hle
      exact absurd hle hmany

end Keeps

end BatchPrefill

/-! ## The merged outputs -/

section Merge

variable [Zero R] [LinearOrder R] {dist : DistFunc V R} {vectors : List V} {n k : Nat}
  {internalBuffer : StdVector (IdTaggedDistance R)} {heaps : Fin n → LocalHeap R}

/-- The resize of `internal_buffer` after the copies does not harm the page: it
takes one vector only, or no output but `{0, 0}` lies behind the old size. -/
def OutputsFit (k : Nat) (internalBuffer : StdVector (IdTaggedDistance R))
    (heaps : Fin n → LocalHeap R) : Prop :=
  k = 1 ∨ ∀ e ∈ (outputs heaps).flatten.drop internalBuffer.size, e = .valueInit

instance : Decidable (OutputsFit k internalBuffer heaps) :=
  inferInstanceAs (Decidable (_ ∨ _))

/-- The merged buffer is sorted and starts with the first vector, even when the
resize replaced some outputs by `{0, 0}`. -/
theorem mergeOutputs_head (hroom : (outputs heaps).flatten.length ≤ internalBuffer.data.length)
    (hle : ((outputs heaps).flatten : Multiset _) ≤ candidates dist vectors)
    (hmem : .valueInit ∈ (outputs heaps).flatten) :
    ∃ merged, mergeOutputs internalBuffer heaps = some merged ∧
      merged.size = (outputs heaps).flatten.length ∧
      merged.elems.Pairwise (· ≤ ·) ∧ merged.elems.head? = some .valueInit := by
  obtain ⟨merged, hrun, hsize, helems⟩ := mergeOutputs_spec internalBuffer heaps hroom
  have hsorted : merged.elems.Pairwise (· ≤ ·) := by
    rw [helems]
    exact List.pairwise_insertionSort _ _
  refine ⟨merged, hrun, hsize, hsorted, head?_of_sorted hsorted ?_ ?_⟩
  · rw [helems, List.mem_insertionSort, List.mem_append, List.mem_replicate]
    by_cases hfew : (outputs heaps).flatten.length ≤ internalBuffer.size
    · left
      rwa [List.take_of_length_le hfew]
    · right
      exact ⟨by omega, rfl⟩
  · intro e he
    rw [helems, List.mem_insertionSort, List.mem_append, List.mem_replicate] at he
    rcases he with he | ⟨-, rfl⟩
    · exact nonneg_of_mem_candidates
        (Multiset.mem_of_le hle (Multiset.mem_coe.mpr (List.mem_of_mem_take he)))
    · exact le_rfl

/-- What is read from the merged buffer is a choice for the page. -/
theorem mergeOutputs_chosen (hk : 0 < k)
    (hroom : (outputs heaps).flatten.length ≤ internalBuffer.data.length)
    (hle : ((outputs heaps).flatten : Multiset _) ≤ candidates dist vectors)
    (hmem : .valueInit ∈ (outputs heaps).flatten) (hfit : OutputsFit k internalBuffer heaps) :
    ∃ merged last, mergeOutputs internalBuffer heaps = some merged ∧
      merged.elems[min k merged.size - 1]? = some last ∧
      Chosen dist vectors (merged.elems.take (min k merged.size)) last.first := by
  obtain ⟨merged, hrun, hsize, hsorted, hhead⟩ := mergeOutputs_head hroom hle hmem
  have hpos : 0 < min k merged.size := by
    have := List.length_pos_of_mem hmem
    omega
  have hcount : min k merged.size ≤ merged.elems.length := by
    rw [StdVector.length_elems]
    exact Nat.min_le_right _ _
  have hlast : (merged.elems.take (min k merged.size)).getLast? =
      some merged.elems[min k merged.size - 1] := by
    rw [List.getLast?_eq_getElem?, List.length_take, Nat.min_eq_left hcount,
      List.getElem?_take_of_lt (by omega), List.getElem?_eq_getElem]
  refine ⟨merged, merged.elems[min k merged.size - 1], hrun, List.getElem?_eq_getElem _, ?_, ?_,
    isGreatest_getLast? hsorted.take hlast⟩
  · rcases hfit with rfl | hfit
    · obtain ⟨rest, hrest⟩ := List.head?_eq_some_iff.mp hhead
      have hone : min 1 merged.size = 1 := by omega
      rw [hone, hrest, List.take_succ_cons, List.take_zero, Multiset.coe_singleton,
        Multiset.singleton_le]
      exact Multiset.mem_of_le hle (Multiset.mem_coe.mpr hmem)
    · refine (Multiset.coe_le.mpr (List.take_sublist _ _).subperm).trans ?_
      rw [mergeOutputs_of_fit hroom hfit hrun,
        Multiset.coe_eq_coe.mpr (List.perm_insertionSort _ _)]
      exact hle
  · rw [List.head?_take, if_neg hpos.ne', hhead]

/-- If the outputs cover all vectors, the choice is one of the smallest entries. -/
theorem mergeOutputs_smallest {merged : StdVector (IdTaggedDistance R)}
    (hroom : (outputs heaps).flatten.length ≤ internalBuffer.data.length)
    (hfit : ∀ e ∈ (outputs heaps).flatten.drop internalBuffer.size, e = .valueInit)
    (hcov : Covers id k ((outputs heaps).flatten : Multiset _) (candidates dist vectors))
    (hrun : mergeOutputs internalBuffer heaps = some merged) :
    IsSmallest id k (merged.elems.take (min k merged.size) : Multiset _)
      (candidates dist vectors) := by
  have helems := mergeOutputs_of_fit hroom hfit hrun
  have htake : merged.elems.take (min k merged.size) = merged.elems.take k := by
    rw [← StdVector.length_elems, ← List.take_eq_take_min]
  rw [htake]
  refine Covers.take ?_ ?_
  · rwa [helems, Multiset.coe_eq_coe.mpr (List.perm_insertionSort _ _)]
  · rw [helems]
    exact List.pairwise_insertionSort (· ≤ ·) _

end Merge

end Spheres.Parallel
