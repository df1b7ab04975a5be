import Spheres.Interface.Requests
import Spheres.Library.MorselVisits

/-!
# Probe budgets

A query of a batch goes through the first entries of its distance buffer and
stops at the end of the buffer. The workers of `find_k_nearest` take the budget
itself as the limit of their counter. They visit the same entries as long as the
budget is no larger than the number of non-empty pages; with a larger one they
read behind the buffer.
-/

namespace Spheres.Database

open Execution Parallel Library Library.Interleaving Library.MorselLoop Library.Selection

variable {V R : Type*} [Zero R] [LinearOrder R]

def nonEmptyPages (db : Database V R) : Nat :=
  db.dbStorage.pages.countP fun p => !p.slots.isEmpty

/-- The positions of the distance buffer that the workers of a query visit. -/
def visits (db : Database V R) (query : V) (k nPagesToProbe step : Nat)
    (sched : List (Fin db.nThreads × Bool)) : Multiset Nat :=
  (db.knnTask query k nPagesToProbe step (db.queryOrder query)).findKnnWorker.visits sched
    db.knnStart

/-- The workers visit entries that exist, none of them twice, and when they have
finished they have visited the first entries up to the budget and no others. -/
structure ProbesBudget (db : Database V R) (query : V) (k nPagesToProbe step : Nat)
    (sched : List (Fin db.nThreads × Bool)) : Prop where
  exist : ∀ i ∈ db.visits query k nPagesToProbe step sched, i < (db.queryOrder query).length
  once : (db.visits query k nPagesToProbe step sched).Nodup
  all : ∀ c, complete (db.knnTask query k nPagesToProbe step (db.queryOrder query)).findKnnWorker.act
      Loop.isDone sched db.knnStart = .returned c →
    db.visits query k nPagesToProbe step sched =
      Multiset.Ico 0 (min (db.batchLimit nPagesToProbe) db.nonEmptyPages)

variable {db : Database V R} {query : V} {k nPagesToProbe step : Nat}

omit [Zero R] in
/-- The distance buffer has an entry for every non-empty page. -/
theorem length_queryOrder_eq (query : V) :
    (db.queryOrder query).length = db.nonEmptyPages := by
  have hfirst : (anchorDistances db.installed.distFunc db.dbStorage.pages query).map (·.first) =
      db.dbStorage.pages.filterMap fun p => p.anchor.map fun a =>
        db.installed.distFunc query a := by
    rw [← filterMap_range_getElem?, anchorDistances, perPage, List.map_filterMap]
    refine List.filterMap_congr fun i _ => ?_
    cases db.dbStorage.pages[i]? with
    | none => rfl
    | some p =>
      cases ha : p.anchor with
      | none => simp [ha]
      | some a => simp [ha]
  rw [queryOrder, anchorOrder, List.length_insertionSort, ← List.length_map (·.first), hfirst,
    List.length_filterMap_eq_countP, nonEmptyPages]
  refine List.countP_congr fun p _ => ?_
  cases hs : p.slots <;> simp [Page.anchor, hs]

omit [Zero R] in
theorem batchLimit_eq (h : db.Searchable) (query : V) (nPagesToProbe : Nat) :
    db.batchLimit nPagesToProbe = db.probeCount query nPagesToProbe := by
  rw [batchLimit, probeCount, length_queryOrder h.coherent]

omit [Zero R] in
/-- What a query of a batch goes through, for every budget. -/
theorem probedEntries_eq (h : db.Searchable) (queries : List V) (query : V) :
    (db.batchTask queries k nPagesToProbe step).probedEntries query =
      some ((db.queryOrder query).take (min (db.batchLimit nPagesToProbe) db.nonEmptyPages)) := by
  have hfill : fillDistToAnchorBufferSingleThreaded db.installed.distFunc db.cachedVectors
      db.cachedMaxDists query = some (db.queryOrder query) :=
    fillDistToAnchorBuffer_eq db.installed.distFunc h.coherent query
  have hprobed : (db.batchTask queries k nPagesToProbe step).probedEntries query =
      some ((db.queryOrder query).take (db.batchLimit nPagesToProbe)) := by
    unfold FindKnnBatch.probedEntries
    show Option.map _ (fillDistToAnchorBufferSingleThreaded db.installed.distFunc db.cachedVectors
      db.cachedMaxDists query) = _
    rw [hfill]
    rfl
  rw [hprobed, ← length_queryOrder_eq query, ← List.take_eq_take_min]

omit [Zero R] in
/-- Within the budget. -/
theorem probesBudget_of_le (h : db.Searchable) (hProbe : nPagesToProbe ≤ db.nonEmptyPages)
    (sched : List (Fin db.nThreads × Bool)) : db.ProbesBudget query k nPagesToProbe step sched := by
  have : Nonempty (Fin db.nThreads) := ⟨⟨0, h.threads⟩⟩
  have hlimit : db.probeCount query nPagesToProbe ≤ (db.queryOrder query).length := by
    rw [probeCount]
    split
    · exact le_rfl
    · rw [length_queryOrder_eq]
      exact hProbe
  have hvisits : db.visits query k nPagesToProbe step sched ≤
      Multiset.Ico 0 (db.probeCount query nPagesToProbe) :=
    (Loop.visits_start rfl (fun _ => rfl) sched).1
  refine ⟨fun i hi => ?_, Multiset.nodup_of_le hvisits Multiset.nodup_Ico, fun c hc => ?_⟩
  · exact (Multiset.mem_Ico.mp (Multiset.mem_of_le hvisits hi)).2.trans_le hlimit
  · rw [batchLimit_eq h query, ← length_queryOrder_eq query, Nat.min_eq_left hlimit]
    exact (Loop.visits_start rfl (fun _ => rfl) sched).2 c hc

omit [Zero R] in
/-- With a larger budget a worker alone comes to the end of the buffer and reads on. -/
theorem exists_visit_of_lt (h : db.Searchable) (hk : 0 < k)
    (hBuffer : k ≤ db.localDistanceBuffersSize) (hStep : 0 < step)
    (hProbe : db.nonEmptyPages < nPagesToProbe) :
    ∃ sched, (db.queryOrder query).length ∈ db.visits query k nPagesToProbe step sched := by
  apply FindKnn.exists_visit_end (T := db.knnTask query k nPagesToProbe step (db.queryOrder query))
    (t := ⟨0, h.threads⟩) ?_ hStep ?_ ((h.buffers _).symm ▸ hBuffer) rfl rfl
  · -- the positions of the buffer are those of the task without a budget
    exact knnTask_reads h hk (Nat.zero_le _)
  · rw [← length_queryOrder_eq query] at hProbe
    show _ < if nPagesToProbe = 0 then _ else nPagesToProbe
    rw [if_neg (Nat.zero_lt_of_lt hProbe).ne']
    exact hProbe

end Spheres.Database
