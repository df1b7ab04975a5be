import Spheres.Library.MorselRows
import Spheres.Parallel.PageScan

/-!
# The workers of a `BatchFindKnn` task

A worker answers one query at a time: it computes the distances to all anchors
itself, probes pages in their order with an empty heap, and copies the first
`k` cells of the heap to the row of the query. There is no common bound; a page
is pruned against the worker's own heap only.
-/

namespace Spheres.Parallel

open Execution Library Library.Selection Library.MorselRows

variable {V R : Type*}

/-- The context of a `BatchFindKnn` task. -/
structure FindKnnBatch (V R : Type*) extends Search V R where
  /-- `vector_input2`: the queries. -/
  queries : List V
  /-- `vector_input3`. -/
  cachedVectors : List V
  /-- `vector_input1`. -/
  cachedMaxDists : List (IdTaggedDistance R)
  /-- `scalar_input2`. -/
  nPagesToProbe : Nat
  maxMorsel : Nat
  morselStep : Nat

namespace FindKnnBatch

variable [LinearOrder R] (T : FindKnnBatch V R)

/-- The body of the loop over the distance buffer. -/
def probePage (query : V) (h : LocalHeap R) (e : IdTaggedDistance R) : Option (LocalHeap R) :=
  (T.dbStorage.pageAt? e.second).bind fun p =>
  (T.prunedByTop e.first p.maxDist h).bind fun pruned =>
  if pruned then some h else T.visitPage query e.first e.second h

/-- The heap after all pages of one query; the cells are those of the buffer
that the worker got. -/
def answerQuery (query : V) (cells : List (IdTaggedDistance R)) : Option (LocalHeap R) :=
  (fillDistToAnchorBufferSingleThreaded T.distFunc T.cachedVectors T.cachedMaxDists query).bind
    fun buffer => (buffer.take T.nPagesToProbe).foldlM (T.probePage query) ⟨cells, 0⟩

/-- The entries of the distance buffer that the loop over it goes through before
the number of probed pages is reached. -/
def probedEntries (query : V) : Option (List (IdTaggedDistance R)) :=
  (fillDistToAnchorBufferSingleThreaded T.distFunc T.cachedVectors T.cachedMaxDists query).map
    fun buffer => buffer.take T.nPagesToProbe

theorem answerQuery_eq (query : V) (cells : List (IdTaggedDistance R)) :
    T.answerQuery query cells =
      (T.probedEntries query).bind fun entries => entries.foldlM (T.probePage query) ⟨cells, 0⟩ := by
  rw [answerQuery, probedEntries, Option.bind_map]
  rfl

/-- `find_knn_batch_worker`; the row of a query is copied from the heap with `memcpy`. -/
def findKnnBatchWorker : RowLoop (List (IdTaggedDistance R)) (IdTaggedDistance R) where
  step := T.morselStep
  limit := T.maxMorsel
  width := T.k
  row i cells :=
    (T.queries[i]?).bind fun query => (T.answerQuery query cells).bind fun h =>
      if T.k ≤ h.heap.length then some (h.heap, h.heap.take T.k) else none

/-- The distances from a query to the vectors on the pages that are probed for it. -/
def probed (query : V) : Multiset (IdTaggedDistance R) :=
  distancesTo T.distFunc query
    (probedPages T.distFunc T.dbStorage.pages query T.nPagesToProbe)

/-- The caches in the context agree with the pages. -/
structure Reads : Prop where
  uniform : T.dbStorage.Uniform
  coherent : Coherent T.dbStorage.pages T.cachedVectors T.cachedMaxDists
  symm : ∀ v w, T.distFunc v w = T.distFunc w v
  k_pos : 0 < T.k

/-- A page that is pruned against the top of a full heap has no entry that ranks
below what lies within the top. -/
def PrunesBy {κ : Type*} [LinearOrder κ] (key : IdTaggedDistance R → κ) : Prop :=
  ∀ (query a : V) (p : Page V R) (w : R), p ∈ T.dbStorage.pages → p.anchor = some a →
    T.pruneCheckFunc (T.distFunc query a) p.maxDist w = true →
    ∀ y ∈ entries T.distFunc query p, ∀ z : IdTaggedDistance R, z.first ≤ w → key z ≤ key y

variable {T} {bufferSize : Nat} {κ : Type*} [LinearOrder κ] {key : IdTaggedDistance R → κ}

/-- One page. -/
theorem probePage_covers (hr : T.Reads) (hkey : Search.ByDistance key) (hprune : T.PrunesBy key)
    {query : V} {e : IdTaggedDistance R} {p : Page V R} {a : V}
    (hp : T.dbStorage.pages[e.second]? = some p) (ha : p.anchor = some a)
    (hd : e.first = T.distFunc query a) {h : LocalHeap R} (hv : h.Valid T.k bufferSize)
    {all : Multiset (IdTaggedDistance R)}
    (hcov : CoversExcept key (fun _ => False) T.k h.live all) :
    ∃ h', T.probePage query h e = some h' ∧ h'.Valid T.k bufferSize ∧
      CoversExcept key (fun _ => False) T.k h'.live
        ((entries T.distFunc query p : Multiset (IdTaggedDistance R)) + all) := by
  have hread : T.dbStorage.pageAt? e.second = some p := (hr.uniform.pageAt?_eq _).trans hp
  obtain ⟨test, htest⟩ : ∃ b, T.prunedByTop e.first p.maxDist h = some b :=
    Search.prunedByTop_isSome hr.k_pos hv
  cases test with
  | true =>
    refine ⟨h, ?_, hv, Search.skip_covers hr.k_pos hv htest _ (fun w hw y hy => Or.inl ?_) hcov⟩
    · simp only [probePage, hread, Option.bind_some, htest, if_true]
    · exact hprune query a p w (List.mem_of_getElem? hp) ha (hd ▸ hw) y (Multiset.mem_coe.mp hy)
  | false =>
    obtain ⟨h', hrun, hv', hcov'⟩ := Search.visitPage_covers hkey hr.k_pos hr.symm hr.uniform hp
      ha hv hcov
    rw [← hd] at hrun
    refine ⟨h', ?_, hv', hcov'⟩
    simp only [probePage, hread, Option.bind_some, htest, hrun, Bool.false_eq_true, if_false]

/-- The pages named by a part of the distance buffer, one after the other. -/
theorem probePages_covers (hr : T.Reads) (hkey : Search.ByDistance key)
    (hprune : T.PrunesBy key) (query : V) (buffer : List (IdTaggedDistance R))
    (hbuffer : ∀ e ∈ buffer, e ∈ anchorDistances T.distFunc T.dbStorage.pages query)
    {h : LocalHeap R} (hv : h.Valid T.k bufferSize) {all : Multiset (IdTaggedDistance R)}
    (hcov : CoversExcept key (fun _ => False) T.k h.live all) :
    ∃ h', buffer.foldlM (T.probePage query) h = some h' ∧ h'.Valid T.k bufferSize ∧
      CoversExcept key (fun _ => False) T.k h'.live
        (distancesTo T.distFunc query (namedPages T.dbStorage.pages buffer) + all) := by
  induction buffer generalizing h all with
  | nil => exact ⟨h, rfl, hv, by simpa [namedPages] using hcov⟩
  | cons e buffer ih =>
    obtain ⟨p, a, hp, ha, hd⟩ := mem_perPage.mp (hbuffer e List.mem_cons_self)
    obtain ⟨h₁, hrun₁, hv₁, hcov₁⟩ := probePage_covers hr hkey hprune hp ha hd hv hcov
    obtain ⟨h₂, hrun₂, hv₂, hcov₂⟩ := ih (fun e he => hbuffer e (List.mem_cons_of_mem _ he))
      hv₁ hcov₁
    refine ⟨h₂, by rw [List.foldlM_cons, hrun₁]; exact hrun₂, hv₂, ?_⟩
    have hnamed : namedPages T.dbStorage.pages (e :: buffer) =
        p :: namedPages T.dbStorage.pages buffer := by
      simp [namedPages, hp]
    rw [hnamed, distancesTo_cons, add_assoc, add_left_comm]
    exact hcov₂

/-- The heap of a query covers the probed pages, whatever was in the buffer. -/
theorem answerQuery_covers (hr : T.Reads) (hkey : Search.ByDistance key)
    (hprune : T.PrunesBy key) (query : V) {cells : List (IdTaggedDistance R)}
    (hroom : T.k ≤ cells.length) :
    ∃ h, T.answerQuery query cells = some h ∧ h.Valid T.k cells.length ∧
      CoversExcept key (fun _ => False) T.k h.live (T.probed query) := by
  rw [answerQuery, fillDistToAnchorBuffer_eq T.distFunc hr.coherent query, Option.bind_some]
  obtain ⟨h, hrun, hv, hcov⟩ := probePages_covers hr hkey hprune query
    ((anchorOrder T.distFunc T.dbStorage.pages query).take T.nPagesToProbe)
    (fun e he => (List.mem_insertionSort _).mp (List.mem_of_mem_take he))
    (LocalHeap.valid_empty hroom) (coversExcept_zero _ _)
  exact ⟨h, hrun, hv, by simpa [probed, probedPages] using hcov⟩

/-! ## How many entries a query finds -/

theorem prunesBy_unit : T.PrunesBy fun _ => () :=
  fun _ _ _ _ _ _ _ _ _ _ _ => le_rfl

/-- Whatever the pruning test does, the live entries are entries of the probed
pages, and there are `k` of them when the probed pages have as many. -/
theorem answerQuery_genuine (hr : T.Reads) (query : V) {cells : List (IdTaggedDistance R)}
    (hroom : T.k ≤ cells.length) :
    ∃ h, T.answerQuery query cells = some h ∧ h.Valid T.k cells.length ∧
      (h.live : Multiset (IdTaggedDistance R)) ≤ T.probed query ∧
      (T.k ≤ (T.probed query).card → h.nOutputs = T.k) := by
  obtain ⟨h, hrun, hv, hcov⟩ := answerQuery_covers hr
    (show Search.ByDistance fun _ : IdTaggedDistance R => () from fun _ _ _ => le_rfl)
    prunesBy_unit query hroom
  refine ⟨h, hrun, hv, hcov.le, fun hcard => le_antisymm hv.le ?_⟩
  have hlive := Covers.le_card hcov hcard
  rwa [hv.card_live] at hlive

/-- The row of a query, from any cells. -/
theorem row_eq_some {i : Nat} {query : V} (hquery : T.queries[i]? = some query)
    {cells : List (IdTaggedDistance R)} {h : LocalHeap R}
    (hrun : T.answerQuery query cells = some h) (hv : h.Valid T.k cells.length) :
    T.findKnnBatchWorker.row i cells = some (h.heap, h.heap.take T.k) := by
  have hlen : T.k ≤ h.heap.length := hv.length ▸ hv.room
  simp only [findKnnBatchWorker, hquery, Option.bind_some, hrun, if_pos hlen]

end FindKnnBatch

end Spheres.Parallel
