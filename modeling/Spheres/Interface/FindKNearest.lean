import Spheres.Interface.Database
import Spheres.Library.MorselProgress
import Spheres.Parallel.FillDistToAnchor
import Spheres.Parallel.FindKnn
import Spheres.Parallel.Outputs

/-!
# `find_k_nearest`

The query fills the distance buffer, in parallel when there are many pages,
submits the search task and merges the heaps of the workers. The result is
modelled as the list of the `k` reads of `internal_buffer` that the last loop
makes; a read past its size has no value.
-/

namespace Spheres

open Execution Parallel Library Library.Interleaving Library.MorselLoop Library.Selection

variable {V R : Type*} [Zero R] [LinearOrder R]

namespace Database

/-- The `FillDistToAnchor` task of a query. -/
def fillTask (db : Database V R) (query : V) : FillDistToAnchor V R where
  cachedMaxDists := db.cachedMaxDists
  cachedVectors := db.cachedVectors
  query
  distFunc := db.installed.distFunc
  nFillAvg := db.cachedMaxDists.length / db.nThreads
  nLeft := db.cachedMaxDists.length % db.nThreads
  maxMorsel := db.cachedMaxDists.length

/-- The distance buffer after its `resize` to the number of cached pages. -/
def resizedDistToAnchorBuffer (db : Database V R) : List (IdTaggedDistance R) :=
  db.distToAnchorBuffer.take db.cachedMaxDists.length ++
    List.replicate (db.cachedMaxDists.length - db.distToAnchorBuffer.length) .valueInit

/-- The sorted distance buffer of a query. -/
def fillDistToAnchorBuffer (db : Database V R) (query : V)
    (sched : List (Fin db.nThreads × Unit)) : Outcome (List (IdTaggedDistance R)) :=
  if db.cachedMaxDists.length > db.nThreads * 2 then
    if db.nThreads = 0 then .fault
    else ((db.fillTask query).submit sched db.resizedDistToAnchorBuffer).bind fun buffer =>
      .returned (buffer.insertionSort (· ≤ ·))
  else .ofOption (fillDistToAnchorBufferSingleThreaded db.installed.distFunc db.cachedVectors
    db.cachedMaxDists query)

/-- The `FindKnn` task of a query. -/
def knnTask (db : Database V R) (query : V) (k nPagesToProbe step : Nat)
    (buffer : List (IdTaggedDistance R)) : FindKnn V R where
  dbStorage := db.dbStorage
  distFunc := db.installed.distFunc
  pruneCheckFunc := db.installed.pruneCheckFunc
  k
  query
  distToAnchor := buffer
  maxMorsel := if nPagesToProbe = 0 then buffer.length else nPagesToProbe
  morselStep := step

/-- The state of the workers when the task is submitted. -/
def knnStart (db : Database V R) : Config (Fin db.nThreads) (Shared R) (Thread R (KnnWork R)) where
  shared := { next := 0, bound := ⊤, tally := db.nPruned }
  threads t := ⟨.fetch, ⟨⟨db.localDistanceBuffers t, 0⟩, 0⟩⟩

/-- `find_k_nearest`; the schedules are those of its two tasks. -/
def findKNearest (db : Database V R) (query : V) (k nPagesToProbe step : Nat)
    (fillSched : List (Fin db.nThreads × Unit)) (sched : List (Fin db.nThreads × Bool)) :
    Outcome (Database V R × List (Option (IdTaggedDistance R))) :=
  (db.fillDistToAnchorBuffer query fillSched).bind fun buffer =>
  (complete (db.knnTask query k nPagesToProbe step buffer).findKnnWorker.act Loop.isDone sched
    db.knnStart).bind fun c =>
  let heaps := fun t => (c.threads t).work.heap
  (Outcome.ofOption
    (mergeOutputs (db.internalBuffer.resize .valueInit (db.nThreads * k)) heaps)).bind fun merged =>
  .returned
    ({ db with
        distToAnchorBuffer := buffer
        localDistanceBuffers := fun t => (heaps t).heap
        internalBuffer := merged
        nPruned := c.shared.tally },
      (List.range k).map fun ik => merged.elems[ik]?)

/-! ## The distance buffer -/

omit [LinearOrder R] in
theorem length_resized (db : Database V R) :
    db.resizedDistToAnchorBuffer.length = db.cachedMaxDists.length := by
  simp only [resizedDistToAnchorBuffer, List.length_append, List.length_take, List.length_replicate]
  omega

/-- With coherent caches the buffer is filled with the distances to all anchors
in ascending order, whichever way it is filled. -/
theorem fillDistToAnchorBuffer_ensures (db : Database V R)
    (hCoherent : Coherent db.dbStorage.pages db.cachedVectors db.cachedMaxDists)
    (hThreads : 0 < db.nThreads) (query : V) (sched : List (Fin db.nThreads × Unit)) :
    (db.fillDistToAnchorBuffer query sched).Ensures fun buffer =>
      buffer =
        (anchorDistances db.installed.distFunc db.dbStorage.pages query).insertionSort (· ≤ ·) := by
  rw [fillDistToAnchorBuffer]
  split
  · rw [if_neg hThreads.ne']
    refine Outcome.Ensures.bind (FillDistToAnchor.submit_eq (T := db.fillTask query) hThreads
      ⟨rfl, rfl, rfl⟩ hCoherent sched (db.length_resized)) fun out hout => ?_
    rw [hout]
    rfl
  · rw [fillDistToAnchorBuffer_eq db.installed.distFunc hCoherent query]
    rfl

/-- Whenever the buffer is filled it holds the order of the query, also without
threads. -/
theorem fillDistToAnchorBuffer_returned {db : Database V R}
    (hCoherent : Coherent db.dbStorage.pages db.cachedVectors db.cachedMaxDists) {query : V}
    {sched : List (Fin db.nThreads × Unit)} {buffer : List (IdTaggedDistance R)}
    (h : db.fillDistToAnchorBuffer query sched = .returned buffer) :
    buffer =
      (anchorDistances db.installed.distFunc db.dbStorage.pages query).insertionSort (· ≤ ·) := by
  rcases Nat.eq_zero_or_pos db.nThreads with hzero | hpos
  · rw [fillDistToAnchorBuffer, if_pos hzero] at h
    split at h
    · cases h
    · rw [fillDistToAnchorBuffer_eq db.installed.distFunc hCoherent query] at h
      cases h
      rfl
  · exact (fillDistToAnchorBuffer_ensures db hCoherent hpos query sched).of_returned h

/-- The buffer is filled once every worker has had enough turns. -/
theorem fillDistToAnchorBuffer_returns (db : Database V R)
    (hCoherent : Coherent db.dbStorage.pages db.cachedVectors db.cachedMaxDists)
    (hThreads : 0 < db.nThreads) (query : V) {sched : List (Fin db.nThreads × Unit)}
    (hTurns : ∀ t, db.cachedMaxDists.length + db.nThreads < turns (fun _ => true) t sched) :
    ∃ buffer, db.fillDistToAnchorBuffer query sched = .returned buffer := by
  rw [fillDistToAnchorBuffer]
  split
  · rw [if_neg hThreads.ne']
    obtain ⟨out, hout⟩ := FillDistToAnchor.submit_returns (T := db.fillTask query)
      (show (db.fillTask query).Shares db.cachedMaxDists.length db.nThreads from ⟨rfl, rfl, rfl⟩)
      (fun j hj => FillDistToAnchor.exists_target (T := db.fillTask query) hCoherent hj)
      db.length_resized hTurns
    exact ⟨_, by rw [hout, Outcome.bind_returned]⟩
  · exact ⟨_, by rw [fillDistToAnchorBuffer_eq db.installed.distFunc hCoherent query]; rfl⟩

/-! ## What a query finds -/

/-- A database on which queries can run: the pages are addressed, the caches
agree with them, and there are threads with local buffers. -/
structure Searchable (db : Database V R) : Prop where
  uniform : db.dbStorage.Uniform
  coherent : Coherent db.dbStorage.pages db.cachedVectors db.cachedMaxDists
  buffers : db.BuffersSized
  threads : 0 < db.nThreads
  symm : ∀ v w, db.installed.distFunc v w = db.installed.distFunc w v

/-- The buffer that a query works with. -/
def queryOrder (db : Database V R) (query : V) : List (IdTaggedDistance R) :=
  anchorOrder db.installed.distFunc db.dbStorage.pages query

/-- How many pages a query visits. -/
def probeCount (db : Database V R) (query : V) (nPagesToProbe : Nat) : Nat :=
  if nPagesToProbe = 0 then (db.queryOrder query).length else nPagesToProbe

/-- `guard` holds of the heap of every worker that lowers the common bound
during the search task of a query. -/
def PublishesUnder (guard : KnnWork R → Prop) (db : Database V R) (query : V)
    (k nPagesToProbe step : Nat) (sched : List (Fin db.nThreads × Bool)) : Prop :=
  Along (db.knnTask query k nPagesToProbe step (db.queryOrder query)).findKnnWorker.act
    (fun c x => Loop.Publishes c x → guard (c.threads x.1).work) sched db.knnStart

instance (guard : KnnWork R → Prop) [DecidablePred guard] (db : Database V R) (query : V)
    (k nPagesToProbe step : Nat) (sched : List (Fin db.nThreads × Bool)) :
    Decidable (db.PublishesUnder guard query k nPagesToProbe step sched) :=
  inferInstanceAs (Decidable (Along _ _ _ _))

section Query

variable {db : Database V R} {query : V} {k nPagesToProbe step : Nat}

omit [Zero R] in
theorem knnTask_reads (h : db.Searchable) (hk : 0 < k)
    (hProbe : nPagesToProbe ≤ (db.queryOrder query).length) :
    (db.knnTask query k nPagesToProbe step (db.queryOrder query)).Reads where
  uniform := h.uniform
  symm := h.symm
  k_pos := hk
  entry := by
    intro i hi
    have hlt : i < (db.queryOrder query).length := by
      simp only [knnTask] at hi
      split at hi <;> omega
    have hmem : (db.queryOrder query)[i] ∈
        anchorDistances db.installed.distFunc db.dbStorage.pages query :=
      (List.mem_insertionSort _).mp (List.getElem_mem hlt)
    obtain ⟨p, a, hp, ha, hd⟩ := mem_perPage.mp hmem
    exact ⟨_, p, a, List.getElem?_eq_getElem hlt, hp, ha, hd⟩

/-- The general form of the result of a query: what is merged covers the probed
pages, except for entries that the pruning test excuses. -/
theorem findKNearest_covers (h : db.Searchable) (hk : 0 < k)
    (hBuffer : k ≤ db.localDistanceBuffersSize)
    (hProbe : nPagesToProbe ≤ (db.queryOrder query).length) (hStep : 0 < step)
    {pruned : IdTaggedDistance R → Prop} {Q : WithTop R → Prop} {guard : KnnWork R → Prop}
    (hprune : (db.knnTask query k nPagesToProbe step (db.queryOrder query)).Prunes pruned Q)
    (hTop : Q ⊤)
    (hpublish : ∀ v w r, v ≤ Multiset.Ico 0 (db.probeCount query nPagesToProbe) →
      (db.knnTask query k nPagesToProbe step (db.queryOrder query)).Keeps pruned
        db.localDistanceBuffersSize v w →
      guard w → w.heap.top.map (·.first) = some r → Q r)
    (fillSched : List (Fin db.nThreads × Unit)) (sched : List (Fin db.nThreads × Bool))
    (hguard : db.PublishesUnder guard query k nPagesToProbe step sched) :
    (db.findKNearest query k nPagesToProbe step fillSched sched).Ensures fun r =>
      r.2 = (List.range k).map (fun ik => r.1.internalBuffer.elems[ik]?) ∧
        r.1.internalBuffer.elems.Pairwise (· ≤ ·) ∧
        CoversExcept IdTaggedDistance.first pruned k r.1.internalBuffer.elems
          (distancesTo db.installed.distFunc query
            (probedPages db.installed.distFunc db.dbStorage.pages query
              (db.probeCount query nPagesToProbe))) ∧
        ∀ t, (r.1.localDistanceBuffers t).length = db.localDistanceBuffersSize := by
  have : Nonempty (Fin db.nThreads) := ⟨⟨0, h.threads⟩⟩
  have hlen : ∀ t, (db.localDistanceBuffers t).length = db.localDistanceBuffersSize := h.buffers
  refine (fillDistToAnchorBuffer_ensures db h.coherent h.threads query fillSched).bind ?_
  rintro buffer rfl
  have hsound := FindKnn.sound (knnTask_reads h hk hProbe) hStep hprune hpublish
  refine (Loop.submit_sound hsound rfl hTop (fun t => ⟨?_, ?_⟩) hguard).bind ?_
  · exact hlen t ▸ LocalHeap.valid_empty ((hlen t).symm ▸ hBuffer)
  · exact coversExcept_zero _ _
  rintro c ⟨visited, hsum, hkeeps⟩
  have hroom : (outputs fun t => (c.threads t).work.heap).flatten.length ≤
      (db.internalBuffer.resize .valueInit (db.nThreads * k)).size :=
    length_flatten_outputs_le fun t => (hkeeps t).valid.length_live.trans_le (hkeeps t).valid.le
  obtain ⟨merged, hmerge, helems⟩ := mergeOutputs_of_le
    (db.internalBuffer.resize .valueInit (db.nThreads * k))
    (fun t => (c.threads t).work.heap) hroom
  simp only [hmerge, Outcome.ofOption_some, Outcome.bind_returned, Outcome.ensures_returned]
  refine ⟨trivial, ?_, ?_, fun t => (hkeeps t).valid.length⟩
  · rw [helems]
    exact List.pairwise_insertionSort _ _
  · have hcov := coversExcept_sum Finset.univ fun t _ => (hkeeps t).covers
    have hmap := map_sum (Multiset.sumAddMonoidHom.comp (Multiset.mapAddMonoidHom
      (db.knnTask query k nPagesToProbe step (db.queryOrder query)).candidates)) visited
      Finset.univ
    simp only [AddMonoidHom.coe_comp, Function.comp_apply, Multiset.coe_sumAddMonoidHom,
      Multiset.coe_mapAddMonoidHom, hsum] at hmap
    rw [← coe_flatten_outputs, ← hmap] at hcov
    rw [helems, Multiset.coe_eq_coe.mpr (List.perm_insertionSort _ _)]
    exact (FindKnn.sum_candidates (T := db.knnTask query k nPagesToProbe step
      (db.queryOrder query)) _) ▸ hcov

/-- The schedules let every worker act often enough for the two tasks of a query. -/
def EnoughTurns (db : Database V R) (query : V) (nPagesToProbe : Nat)
    (fillSched : List (Fin db.nThreads × Unit)) (sched : List (Fin db.nThreads × Bool)) : Prop :=
  (∀ t, db.cachedMaxDists.length + db.nThreads < turns (fun _ => true) t fillSched) ∧
    ∀ t, (db.nThreads + 5) * db.probeCount query nPagesToProbe + db.nThreads <
      turns (fun weakFailure => !weakFailure) t sched

/-- A query returns once every worker has had enough turns. -/
theorem findKNearest_returns (h : db.Searchable) (hk : 0 < k)
    (hBuffer : k ≤ db.localDistanceBuffersSize)
    (hProbe : nPagesToProbe ≤ (db.queryOrder query).length) (hStep : 0 < step)
    {pruned : IdTaggedDistance R → Prop} {Q : WithTop R → Prop} {guard : KnnWork R → Prop}
    (hprune : (db.knnTask query k nPagesToProbe step (db.queryOrder query)).Prunes pruned Q)
    (hTop : Q ⊤)
    (hpublish : ∀ v w r, v ≤ Multiset.Ico 0 (db.probeCount query nPagesToProbe) →
      (db.knnTask query k nPagesToProbe step (db.queryOrder query)).Keeps pruned
        db.localDistanceBuffersSize v w →
      guard w → w.heap.top.map (·.first) = some r → Q r)
    {fillSched : List (Fin db.nThreads × Unit)} {sched : List (Fin db.nThreads × Bool)}
    (hguard : db.PublishesUnder guard query k nPagesToProbe step sched)
    (hTurns : db.EnoughTurns query nPagesToProbe fillSched sched) :
    ∃ r, db.findKNearest query k nPagesToProbe step fillSched sched = .returned r := by
  have hensures := findKNearest_covers h hk hBuffer hProbe hStep hprune hTop hpublish fillSched
    sched hguard
  obtain ⟨buffer, hbuffer⟩ :=
    fillDistToAnchorBuffer_returns db h.coherent h.threads query hTurns.1
  obtain rfl : buffer = db.queryOrder query :=
    (fillDistToAnchorBuffer_ensures db h.coherent h.threads query fillSched).of_returned hbuffer
  obtain ⟨c, hc⟩ := Loop.submit_returns (s := ⟨0, ⊤, db.nPruned⟩)
    (FindKnn.sound (knnTask_reads h hk hProbe) hStep hprune hpublish) rfl hTop
    (fun t => ⟨h.buffers t ▸ LocalHeap.valid_empty ((h.buffers t).symm ▸ hBuffer),
      coversExcept_zero _ _⟩) hguard (fun t => by
      rw [Fintype.card_fin]
      exact hTurns.2 t)
  rw [← knnStart] at hc
  simp only [findKNearest, hbuffer, Outcome.bind_returned, hc] at hensures ⊢
  exact hensures.exists_returned

end Query

end Database

end Spheres
