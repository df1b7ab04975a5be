import Spheres.Library.MorselVisits
import Spheres.Parallel.PageScan

/-!
# Nearest neighbours of one query

The workers of a `FindKnn` task share out the positions of the sorted distance
buffer, keep one heap each and publish their heap tops as a common pruning
bound. `sound` reduces the task to three facts about the pruning test and the
published values; `guard` is what the heap of a publishing worker must satisfy
for its top to be a valid bound.
-/

namespace Spheres.Parallel

open Library Library.Selection Library.MorselLoop

variable {V R : Type*}

/-- The private state of a worker of a `FindKnn` task. -/
structure KnnWork (R : Type*) where
  heap : LocalHeap R
  nPruned : Nat

/-- The context of a `FindKnn` task. -/
structure FindKnn (V R : Type*) extends Search V R where
  query : V
  /-- `vector_input1`: the distance buffer. -/
  distToAnchor : List (IdTaggedDistance R)
  maxMorsel : Nat
  morselStep : Nat

namespace FindKnn

variable [LinearOrder R] (T : FindKnn V R)

/-- The body of the loop over one morsel. -/
def scanPage (currentGlobalMax : WithTop R) (w : KnnWork R) (current : Nat) :
    Option (KnnWork R) :=
  (T.distToAnchor[current]?).bind fun e =>
  (T.dbStorage.pageAt? e.second).bind fun p =>
  if T.pruneCheckFunc e.first p.maxDist currentGlobalMax then
    some { w with nPruned := w.nPruned + 1 }
  else
    (T.prunedByTop e.first p.maxDist w.heap).bind fun pruned =>
    if pruned then some { w with nPruned := w.nPruned + 1 }
    else (T.visitPage T.query e.first e.second w.heap).map fun h => { w with heap := h }

/-- `find_knn_worker`. -/
def findKnnWorker : Loop R (KnnWork R) where
  step := T.morselStep
  limit := T.maxMorsel
  scan bound lo hi w := (List.range' lo (hi - lo)).foldlM (T.scanPage bound) w
  top w := w.heap.top.map (·.first)
  retire w := w.nPruned

/-- The distances from the query to the slots of the page at a position of the
distance buffer. -/
def candidates (i : Nat) : Multiset (IdTaggedDistance R) :=
  match (T.distToAnchor[i]?).bind fun e => T.dbStorage.pages[e.second]? with
  | none => 0
  | some p => entries T.distFunc T.query p

/-- The distance buffer names non-empty pages with the distances from the query
to their anchors, as far as the task probes it. -/
structure Reads : Prop where
  uniform : T.dbStorage.Uniform
  symm : ∀ v w, T.distFunc v w = T.distFunc w v
  k_pos : 0 < T.k
  entry : ∀ i < T.maxMorsel, ∃ e p a, T.distToAnchor[i]? = some e ∧
    T.dbStorage.pages[e.second]? = some p ∧ p.anchor = some a ∧
    e.first = T.distFunc T.query a

/-- What the pruning test has to give for the pages of the task: against a
common bound that satisfies `Q`, and against the top of a full heap. -/
structure Prunes (pruned : IdTaggedDistance R → Prop) (Q : WithTop R → Prop) : Prop where
  bound : ∀ b, Q b → ∀ (d : R) (p : Page V R), p ∈ T.dbStorage.pages →
    (∃ a, p.anchor = some a ∧ d = T.distFunc T.query a) →
    T.pruneCheckFunc d p.maxDist b = true → ∀ y ∈ entries T.distFunc T.query p, pruned y
  top : ∀ (w d : R) (p : Page V R), p ∈ T.dbStorage.pages →
    (∃ a, p.anchor = some a ∧ d = T.distFunc T.query a) →
    T.pruneCheckFunc d p.maxDist w = true → ∀ y ∈ entries T.distFunc T.query p,
      w ≤ y.first ∨ pruned y

/-- The live entries of a worker cover the candidates it has seen. -/
structure Keeps (pruned : IdTaggedDistance R → Prop) (bufferSize : Nat) (v : Multiset Nat)
    (w : KnnWork R) : Prop where
  valid : w.heap.Valid T.k bufferSize
  covers : CoversExcept IdTaggedDistance.first pruned T.k w.heap.live (v.map T.candidates).sum

variable {T} {bufferSize : Nat} {pruned : IdTaggedDistance R → Prop} {Q : WithTop R → Prop}

omit [LinearOrder R] in
/-- The candidates at the first positions are the distances to the pages that
the buffer names there. -/
theorem sum_candidates (m : Nat) :
    ((Multiset.Ico 0 m).map T.candidates).sum =
      distancesTo T.distFunc T.query (namedPages T.dbStorage.pages (T.distToAnchor.take m)) := by
  induction m with
  | zero => simp [namedPages]
  | succ m ih =>
    have hrange := Loop.Ico_succ 0 m
    rw [Nat.zero_add, Nat.zero_add] at hrange
    rw [hrange, Multiset.map_cons, Multiset.sum_cons, ih, List.take_add_one, namedPages_append,
      distancesTo_append, add_comm]
    congr 1
    cases he : T.distToAnchor[m]? with
    | none => simp [candidates, namedPages, he]
    | some e =>
      cases hp : T.dbStorage.pages[e.second]? with
      | none => simp [candidates, namedPages, he, hp]
      | some p => simp [candidates, namedPages, he, hp, distancesTo_cons]

theorem Keeps.skip {v : Multiset Nat} {w : KnnWork R} {i : Nat}
    (h : T.Keeps pruned bufferSize v w)
    (hcov : CoversExcept IdTaggedDistance.first pruned T.k w.heap.live
      (T.candidates i + (v.map T.candidates).sum)) (n : Nat) :
    T.Keeps pruned bufferSize (i ::ₘ v) { w with nPruned := n } where
  valid := h.valid
  covers := by
    rw [Multiset.map_cons, Multiset.sum_cons]
    exact hcov

/-- One page. -/
theorem scanPage_keeps (hr : T.Reads) (hprune : T.Prunes pruned Q) {b : WithTop R} (hQ : Q b)
    {i : Nat} (hi : i < T.maxMorsel) {v : Multiset Nat} {w : KnnWork R}
    (h : T.Keeps pruned bufferSize v w) :
    ∃ w', T.scanPage b w i = some w' ∧ T.Keeps pruned bufferSize (i ::ₘ v) w' := by
  obtain ⟨e, p, a, he, hp, ha, hd⟩ := hr.entry i hi
  have hmem := List.mem_of_getElem? hp
  have hcand : T.candidates i = entries T.distFunc T.query p := by
    simp only [candidates, he, Option.bind_some, hp]
  have hread : T.dbStorage.pageAt? e.second = some p := (hr.uniform.pageAt?_eq _).trans hp
  by_cases hglobal : T.pruneCheckFunc e.first p.maxDist b = true
  · refine ⟨{ w with nPruned := w.nPruned + 1 }, ?_, h.skip ?_ _⟩
    · simp only [scanPage, he, Option.bind_some, hread, if_pos hglobal]
    · rw [hcand]
      exact h.covers.skip _ fun y hy => Or.inr
        (hprune.bound b hQ e.first p hmem ⟨a, ha, hd⟩ hglobal y (Multiset.mem_coe.mp hy))
  · obtain ⟨test, htest⟩ : ∃ b, T.prunedByTop e.first p.maxDist w.heap = some b :=
      Search.prunedByTop_isSome hr.k_pos h.valid
    cases test with
    | true =>
      refine ⟨{ w with nPruned := w.nPruned + 1 }, ?_, h.skip ?_ _⟩
      · simp only [scanPage, he, Option.bind_some, hread, if_neg hglobal, htest, if_true]
      · rw [hcand]
        exact Search.skip_covers hr.k_pos h.valid htest _ (fun w hw y hy =>
          (hprune.top w e.first p hmem ⟨a, ha, hd⟩ hw y (Multiset.mem_coe.mp hy)).imp_left
            fun hle z hz => hz.trans hle) h.covers
    | false =>
      obtain ⟨heap, hrun, hv, hcov⟩ := Search.visitPage_covers Search.byDistance_first
        hr.k_pos hr.symm
        hr.uniform hp ha h.valid h.covers
      rw [← hd] at hrun
      refine ⟨{ w with heap := heap }, ?_, hv, ?_⟩
      · simp only [scanPage, he, Option.bind_some, hread, if_neg hglobal, htest, hrun,
          Option.map_some, Bool.false_eq_true, if_false]
      · rw [Multiset.map_cons, Multiset.sum_cons, hcand]
        exact hcov

/-- The workers of the task meet the obligations of the loop. -/
theorem sound (hr : T.Reads) (hstep : 0 < T.morselStep) (hprune : T.Prunes pruned Q)
    {guard : KnnWork R → Prop}
    (hpublish : ∀ v w r, v ≤ Multiset.Ico 0 T.maxMorsel → T.Keeps pruned bufferSize v w →
      guard w → T.findKnnWorker.top w = some r → Q r) :
    T.findKnnWorker.Sound (T.Keeps pruned bufferSize) Q guard where
  step_pos := hstep
  scan := by
    intro v b lo w hlo hv hP hQ
    have hlt := Loop.lt_claimEnd (L := T.findKnnWorker) hstep hlo
    have hend : T.findKnnWorker.claimEnd lo ≤ T.maxMorsel := Nat.min_le_left _ _
    obtain ⟨w', hrun, hP'⟩ := Loop.foldlM_positions (P := T.Keeps pruned bufferSize)
      (f := T.scanPage b) (n := T.findKnnWorker.claimEnd lo - lo)
      (fun v w i (_ : lo ≤ i) hi _ hP => scanPage_keeps hr hprune hQ (by omega) hP) hv hP
    refine ⟨w', hrun, ?_⟩
    rwa [Nat.add_sub_cancel' hlt.le] at hP'
  top := by
    intro v w hP
    obtain ⟨e, he⟩ := hP.valid.exists_top hr.k_pos
    exact ⟨e.first, by simp only [findKnnWorker, he, Option.map_some]⟩
  publish := hpublish

/-! ## Behind the end of the buffer -/

/-- The task that stops at the end of the distance buffer. -/
def stopped (T : FindKnn V R) : FindKnn V R := { T with maxMorsel := T.distToAnchor.length }

theorem prunes_any (T : FindKnn V R) : T.Prunes (fun _ => True) (fun _ => True) :=
  ⟨fun _ _ _ _ _ _ _ _ _ => trivial, fun _ _ _ _ _ _ _ _ => Or.inr trivial⟩

/-- What the stopped task keeps, apart from the positions. -/
def KeepsSome (T : FindKnn V R) (bufferSize : Nat) (w : KnnWork R) : Prop :=
  ∃ v, T.stopped.Keeps (fun _ => True) bufferSize v w

/-- A claim before the end is scanned as in the task that stops there. -/
theorem scan_before_end (hr : T.stopped.Reads) {b : WithTop R} {lo : Nat} {w : KnnWork R}
    (hend : T.findKnnWorker.claimEnd lo ≤ T.distToAnchor.length) (hw : T.KeepsSome bufferSize w) :
    ∃ w' r, T.findKnnWorker.scan b lo (T.findKnnWorker.claimEnd lo) w = some w' ∧
      T.findKnnWorker.top w' = some r ∧ T.KeepsSome bufferSize w' := by
  obtain ⟨w', hrun, v, hkeeps⟩ := Loop.foldlM_positions
    (P := fun _ w => T.KeepsSome bufferSize w) (f := T.scanPage b)
    (n := T.findKnnWorker.claimEnd lo - lo) (v := 0) (by
      rintro v w i (hlo : lo ≤ i) hi - ⟨v', hv'⟩
      have hlt : i < T.stopped.maxMorsel := by
        show i < T.distToAnchor.length
        omega
      obtain ⟨w', hrun, hkeeps⟩ := scanPage_keeps hr T.stopped.prunes_any trivial hlt hv'
      exact ⟨w', hrun, _, hkeeps⟩)
    (fun j hj => absurd hj (Multiset.notMem_zero j)) hw
  obtain ⟨e, he⟩ := hkeeps.valid.exists_top hr.k_pos
  exact ⟨w', e.first, hrun, by simp only [findKnnWorker, he, Option.map_some], v, hkeeps⟩

/-- A worker alone comes to the end of the buffer, and goes on when the limit lies
behind it. -/
theorem exists_visit_end {ι : Type*} [DecidableEq ι] (hr : T.stopped.Reads)
    (hstep : 0 < T.morselStep) (hlimit : T.distToAnchor.length < T.maxMorsel)
    {f : ι → Thread R (KnnWork R)} {t : ι} {s : Shared R} {cells : List (IdTaggedDistance R)}
    (hroom : T.k ≤ cells.length) (hnext : s.next = 0) (hf : f t = ⟨.fetch, ⟨⟨cells, 0⟩, 0⟩⟩) :
    ∃ sched, T.distToAnchor.length ∈ T.findKnnWorker.visits sched ⟨s, f⟩ := by
  have hempty : T.KeepsSome cells.length ⟨⟨cells, 0⟩, 0⟩ :=
    ⟨0, LocalHeap.valid_empty hroom, coversExcept_zero _ _⟩
  have hself : f = Function.update f t ⟨.fetch, ⟨⟨cells, 0⟩, 0⟩⟩ := by
    rw [← hf, Function.update_eq_self]
  rw [hself]
  exact Loop.exists_visit hstep hlimit (fun b lo w hend hw => scan_before_end hr hend hw) hempty
    (hnext ▸ Nat.zero_le _)

end FindKnn

end Spheres.Parallel
