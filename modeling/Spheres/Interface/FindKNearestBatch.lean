import Spheres.Interface.ExactSearch
import Spheres.Parallel.FindKnnBatch

/-!
# `find_k_nearest_batch`

The queries of a batch are shared out to the workers, and each query has its
own row of the result. A row depends on the storage and on its query only: the
heap that a worker keeps between two queries is emptied, and pages are pruned
against the heap of the query itself.
-/

namespace Spheres

open Execution Parallel Library Library.Interleaving Library.MorselRows Library.Selection Distance

variable {V R : Type*}

namespace Database

/-- The probe limit of a batch; zero stands for all cached pages. -/
def batchLimit (db : Database V R) (nPagesToProbe : Nat) : Nat :=
  if nPagesToProbe = 0 then db.cachedMaxDists.length else nPagesToProbe

/-- The `BatchFindKnn` task of a batch. -/
def batchTask (db : Database V R) (queries : List V) (k nPagesToProbe step : Nat) :
    FindKnnBatch V R where
  dbStorage := db.dbStorage
  distFunc := db.installed.distFunc
  pruneCheckFunc := db.installed.pruneCheckFunc
  k
  queries
  cachedVectors := db.cachedVectors
  cachedMaxDists := db.cachedMaxDists
  nPagesToProbe := db.batchLimit nPagesToProbe
  maxMorsel := queries.length
  morselStep := step

/-- `find_k_nearest_batch`. -/
def findKNearestBatch [Zero R] [LinearOrder R] (db : Database V R) (queries : List V)
    (k nPagesToProbe step : Nat) (sched : List (Fin db.nThreads × Unit)) :
    Outcome (Database V R × List (IdTaggedDistance R)) :=
  let result := List.replicate (queries.length * k) IdTaggedDistance.valueInit
  (complete (db.batchTask queries k nPagesToProbe step).findKnnBatchWorker.act RowLoop.isDone sched
    ⟨⟨0, result⟩, fun t => ⟨.fetch, db.localDistanceBuffers t⟩⟩).bind fun c =>
  .returned ({ db with localDistanceBuffers := fun t => (c.threads t).work }, c.shared.out)

/-- The distances from a query of a batch to the vectors on the pages that are
probed for it. -/
def batchProbed [LinearOrder R] (db : Database V R) (nPagesToProbe : Nat) (query : V) :
    Multiset (IdTaggedDistance R) :=
  distancesTo db.installed.distFunc query
    (probedPages db.installed.distFunc db.dbStorage.pages query (db.batchLimit nPagesToProbe))

section Batch

variable [Zero R] [LinearOrder R] {db : Database V R} {queries : List V}
  {k nPagesToProbe step : Nat}

omit [Zero R] [LinearOrder R] in
theorem batchTask_reads (h : db.Searchable) (hk : 0 < k) :
    (db.batchTask queries k nPagesToProbe step).Reads :=
  ⟨h.uniform, h.coherent, h.symm, hk⟩

omit [Zero R] in
/-- The workers of the task meet the obligations of the loop, for every property
of a row that the heap of its query gives. -/
theorem batchTask_sound (hStep : 0 < step)
    {Post : Nat → List (IdTaggedDistance R) → Prop}
    (hpost : ∀ i query cells, queries[i]? = some query →
      cells.length = db.localDistanceBuffersSize →
      ∃ h, (db.batchTask queries k nPagesToProbe step).answerQuery query cells = some h ∧
        h.Valid k cells.length ∧ Post i (h.heap.take k)) :
    (db.batchTask queries k nPagesToProbe step).findKnnBatchWorker.Sound
      (fun cells => cells.length = db.localDistanceBuffersSize) Post where
  step_pos := hStep
  row := by
    intro i hi cells hcells
    obtain ⟨h, hrun, hv, hrow⟩ := hpost i _ cells (List.getElem?_eq_getElem hi) hcells
    refine ⟨h.heap, h.heap.take k, FindKnnBatch.row_eq_some (List.getElem?_eq_getElem hi) hrun hv,
      hv.length.trans hcells, ?_, hrow⟩
    have hroom := hv.room
    have hlength := hv.length
    rw [List.length_take]
    exact Nat.min_eq_left (hlength ▸ hroom)

/-- The general form of the result of a batch. -/
theorem findKNearestBatch_rows (hdb : db.Searchable) (hStep : 0 < step)
    {Post : Nat → List (IdTaggedDistance R) → Prop}
    (hpost : ∀ i query cells, queries[i]? = some query →
      cells.length = db.localDistanceBuffersSize →
      ∃ h, (db.batchTask queries k nPagesToProbe step).answerQuery query cells = some h ∧
        h.Valid k cells.length ∧ Post i (h.heap.take k))
    (sched : List (Fin db.nThreads × Unit)) :
    (db.findKNearestBatch queries k nPagesToProbe step sched).Ensures fun r =>
      (∀ i < queries.length, Post i (Rows.row k i r.2)) ∧ r.2.length = queries.length * k ∧
        ∀ t, (r.1.localDistanceBuffers t).length = db.localDistanceBuffersSize := by
  have : Nonempty (Fin db.nThreads) := ⟨⟨0, hdb.threads⟩⟩
  refine (RowLoop.submit_rows (batchTask_sound hStep hpost)
    List.length_replicate
    (fun t => hdb.buffers t) sched).bind ?_
  rintro c ⟨hlength, hwork, hrows⟩
  exact ⟨hrows, hlength, hwork⟩

/-- A batch returns once every worker has had enough turns. -/
theorem findKNearestBatch_returns (hdb : db.Searchable) (hStep : 0 < step)
    {Post : Nat → List (IdTaggedDistance R) → Prop}
    (hpost : ∀ i query cells, queries[i]? = some query →
      cells.length = db.localDistanceBuffersSize →
      ∃ h, (db.batchTask queries k nPagesToProbe step).answerQuery query cells = some h ∧
        h.Valid k cells.length ∧ Post i (h.heap.take k))
    {sched : List (Fin db.nThreads × Unit)}
    (hTurns : ∀ t, 3 * queries.length + db.nThreads < turns (fun _ => true) t sched) :
    ∃ r, db.findKNearestBatch queries k nPagesToProbe step sched = .returned r := by
  obtain ⟨c, hc⟩ := RowLoop.submit_returns (batchTask_sound hStep hpost)
    (List.length_replicate (a := (IdTaggedDistance.valueInit : IdTaggedDistance R)))
    (fun t => hdb.buffers t) fun t => by
      rw [Fintype.card_fin]
      exact hTurns t
  exact ⟨_, Outcome.bind_eq_returned.mpr ⟨c, hc, rfl⟩⟩

end Batch

/-! ## Exactness -/

section Exact

variable [Field R] [LinearOrder R] [IsStrictOrderedRing R] {dim : Nat}
  {db : Database (Vec R dim) R} {queries : List (Vec R dim)} {k nPagesToProbe step : Nat}

theorem batchTask_prunesBy (hInstalled : db.installed = squaredL2Installed R dim)
    (hBounded : ∀ p ∈ db.dbStorage.pages, p.Bounded (squaredL2 R dim)) :
    (db.batchTask queries k nPagesToProbe step).PrunesBy IdTaggedDistance.first := by
  intro query a p w hp ha htest y hy z hz
  have hlt := entries_beyond hInstalled hBounded hp ⟨a, ha, rfl⟩ htest y hy
  exact hz.trans (WithTop.coe_lt_coe.mp hlt).le

/-- Row `i` of the answer to a batch is exact on the pages probed for query `i`:
`k` pairs of distinct slots, and no vector on these pages that was left out is
nearer. -/
def IsExactRow (db : Database V R) (queries : List V) (k nPagesToProbe i : Nat)
    (row : List (IdTaggedDistance R)) : Prop :=
  ∀ query, queries[i]? = some query → row.length = k ∧
    IsSmallest IdTaggedDistance.first k (row : Multiset _) (db.batchProbed nPagesToProbe query)

end Exact

end Database

end Spheres
