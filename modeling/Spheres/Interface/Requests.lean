import Spheres.Interface.FindKNearestBatch
import Spheres.Parallel.Interference

/-!
# Requests one after the other

Queries of both kinds reuse the buffers of the database. A sequence of requests
leaves the storage, the caches and the installed functions alone and changes
the buffers only, so an answer could depend on earlier requests through stale
cells of the buffers and in no other way. `answer_genuine` says when every
returned pair belongs to a vector on a probed page, and when the answer is the
one that the database would have given before the earlier requests.
-/

namespace Spheres

open Execution Parallel Library Library.Interleaving Library.MorselLoop Library.Selection

variable {V R : Type*}

/-- A call of `find_k_nearest` or `find_k_nearest_batch` with the schedules of
its tasks. -/
inductive Request (V : Type*) where
  | nearest (query : V) (k nPagesToProbe step : Nat) (fillSched : List (Nat × Unit))
      (sched : List (Nat × Bool))
  | batch (queries : List V) (k nPagesToProbe step : Nat) (sched : List (Nat × Unit))

namespace Database

section Answer

variable [Zero R] [LinearOrder R]

/-- The result of a request; a place without a value is a read past the size of
a buffer. -/
def answer (db : Database V R) :
    Request V → Outcome (Database V R × List (Option (IdTaggedDistance R)))
  | .nearest query k nPagesToProbe step fillSched sched =>
    db.findKNearest query k nPagesToProbe step (turnsOf _ fillSched) (turnsOf _ sched)
  | .batch queries k nPagesToProbe step sched =>
    (db.findKNearestBatch queries k nPagesToProbe step (turnsOf _ sched)).bind fun r =>
      .returned (r.1, r.2.map some)

/-- The database after a sequence of requests. -/
def answers (db : Database V R) : List (Request V) → Outcome (Database V R)
  | [] => .returned db
  | req :: rest => (db.answer req).bind fun r => r.1.answers rest

/-! ## What a request changes -/

theorem findKNearest_refill {db : Database V R} {query : V} {k nPagesToProbe step : Nat}
    {fillSched : List (Fin db.nThreads × Unit)} {sched : List (Fin db.nThreads × Bool)}
    {r : Database V R × List (Option (IdTaggedDistance R))}
    (h : db.findKNearest query k nPagesToProbe step fillSched sched = .returned r) :
    ∃ b, r.1 = db.refill b ∧
      db.fillDistToAnchorBuffer query fillSched = .returned b.distToAnchorBuffer := by
  obtain ⟨buffer, hbuffer, h⟩ := Outcome.bind_eq_returned.mp h
  obtain ⟨c, -, h⟩ := Outcome.bind_eq_returned.mp h
  obtain ⟨merged, -, h⟩ := Outcome.bind_eq_returned.mp h
  cases h
  exact ⟨⟨buffer, fun t => (c.threads t).work.heap.heap, merged, c.shared.tally⟩, rfl, hbuffer⟩

/-- A request changes nothing but the buffers; the distance buffer is left as
it is or holds the order of the request's query. -/
theorem answer_refill {db : Database V R}
    (hCoherent : Coherent db.dbStorage.pages db.cachedVectors db.cachedMaxDists)
    {req : Request V}
    {r : Database V R × List (Option (IdTaggedDistance R))} (h : db.answer req = .returned r) :
    ∃ b, r.1 = db.refill b ∧ (b.distToAnchorBuffer = db.distToAnchorBuffer ∨
      ∃ query, b.distToAnchorBuffer = db.queryOrder query) := by
  cases req with
  | nearest query k nPagesToProbe step fillSched sched =>
    obtain ⟨b, hb, hbuffer⟩ := findKNearest_refill h
    exact ⟨b, hb, Or.inr ⟨query, fillDistToAnchorBuffer_returned hCoherent hbuffer⟩⟩
  | batch queries k nPagesToProbe step sched =>
    obtain ⟨s, hs, h⟩ := Outcome.bind_eq_returned.mp h
    obtain ⟨c, -, hc⟩ := Outcome.bind_eq_returned.mp hs
    cases h
    cases hc
    exact ⟨⟨db.distToAnchorBuffer, fun t => (c.threads t).work, db.internalBuffer, db.nPruned⟩, rfl,
      Or.inl rfl⟩

/-- What a caller has to respect: `k` fits the local buffers, and there are as
many non-empty pages as are to be probed. -/
def Allowed (db : Database V R) : Request V → Prop
  | .nearest _ k nPagesToProbe step _ _ => 0 < k ∧ k ≤ db.localDistanceBuffersSize ∧
      nPagesToProbe ≤ db.cachedMaxDists.length ∧ 0 < step
  | .batch _ k nPagesToProbe step _ => 0 < k ∧ k ≤ db.localDistanceBuffersSize ∧
      nPagesToProbe ≤ db.cachedMaxDists.length ∧ 0 < step

omit [Zero R] [LinearOrder R] in
theorem Searchable.refill {db : Database V R} (h : db.Searchable) {b : Buffers db.nThreads R}
    (hb : ∀ t, (b.localDistanceBuffers t).length = db.localDistanceBuffersSize) :
    (db.refill b).Searchable :=
  ⟨h.uniform, h.coherent, hb, h.threads, h.symm⟩

omit [Zero R] in
theorem length_queryOrder {db : Database V R}
    (hCoherent : Coherent db.dbStorage.pages db.cachedVectors db.cachedMaxDists) (query : V) :
    (db.queryOrder query).length = db.cachedMaxDists.length := by
  obtain ⟨f, -, hmap⟩ := hCoherent.anchorDistances_eq db.installed.distFunc query
  rw [queryOrder, anchorOrder, List.length_insertionSort, ← hmap, List.length_map]

end Answer

/-! ## Genuine answers -/

section Genuine

variable [LinearOrder R]

/-- Every returned pair is the distance to a vector on a probed page with its
id, and no slot is reported twice. -/
def Genuine (db : Database V R) : Request V → List (Option (IdTaggedDistance R)) → Prop
  | .nearest query _ nPagesToProbe _ _ _, result =>
    ∃ found : List (IdTaggedDistance R), result = found.map some ∧
      (found : Multiset _) ≤ distancesTo db.installed.distFunc query
        (probedPages db.installed.distFunc db.dbStorage.pages query
          (db.probeCount query nPagesToProbe))
  | .batch queries k nPagesToProbe _ _, result =>
    ∀ i query, queries[i]? = some query → ∃ found : List (IdTaggedDistance R),
      Rows.row k i result = found.map some ∧
        (found : Multiset _) ≤ db.batchProbed nPagesToProbe query

/-- There is a live entry for each of the `k` places: in `internal_buffer` when
the places are read from it, or on the pages probed for each query of a batch. -/
def Filled (db : Database V R) : Request V → Database V R → Prop
  | .nearest _ k _ _ _ _, after => k ≤ after.internalBuffer.size
  | .batch queries k nPagesToProbe _ _, _ =>
    ∀ query ∈ queries, k ≤ (db.batchProbed nPagesToProbe query).card

/-- The schedules let every worker act often enough. -/
def TurnsSuffice (db : Database V R) : Request V → Prop
  | .nearest query _ nPagesToProbe _ fillSched sched =>
    db.EnoughTurns query nPagesToProbe (turnsOf _ fillSched) (turnsOf _ sched)
  | .batch queries _ _ _ sched =>
    ∀ t, 3 * queries.length + db.nThreads < turns (fun _ => true) t (turnsOf db.nThreads sched)

/-- No worker compares the first cell of an empty heap with the common bound. -/
def TopsLive (db : Database V R) : Request V → Prop
  | .nearest query k nPagesToProbe step _ sched =>
    Along (db.knnTask query k nPagesToProbe step (db.queryOrder query)).findKnnWorker.act
      (ComparesLive (db.knnTask query k nPagesToProbe step (db.queryOrder query)).findKnnWorker
        fun w => 0 < w.heap.nOutputs) (turnsOf _ sched) db.knnStart
  | .batch _ _ _ _ _ => True

end Genuine

section Nearest

variable [Zero R] [LinearOrder R] {db : Database V R} {query : V} {k nPagesToProbe step : Nat}

omit [Zero R] in
/-- Any pruning test, when nothing is said about what it prunes. -/
theorem knnTask_prunes_any :
    (db.knnTask query k nPagesToProbe step (db.queryOrder query)).Prunes (fun _ => True)
      (fun _ => True) :=
  FindKnn.prunes_any _

omit [Zero R] in
/-- Any value may be published. -/
theorem publishesUnder_true (sched : List (Fin db.nThreads × Bool)) :
    db.PublishesUnder (fun _ => True) query k nPagesToProbe step sched := by
  apply Along.mono _ (along_true sched db.knnStart)
  exact fun _ _ _ _ => trivial

/-- The answer is genuine exactly when `internal_buffer` has `k` entries. -/
theorem findKNearest_genuine (hdb : db.Searchable) (hk : 0 < k)
    (hBuffer : k ≤ db.localDistanceBuffersSize)
    (hProbe : nPagesToProbe ≤ (db.queryOrder query).length) (hStep : 0 < step)
    (fillSched : List (Fin db.nThreads × Unit)) (sched : List (Fin db.nThreads × Bool)) :
    (db.findKNearest query k nPagesToProbe step fillSched sched).Ensures fun r =>
      ((∃ found : List (IdTaggedDistance R), r.2 = found.map some ∧
          (found : Multiset _) ≤ distancesTo db.installed.distFunc query
            (probedPages db.installed.distFunc db.dbStorage.pages query
              (db.probeCount query nPagesToProbe))) ↔ k ≤ r.1.internalBuffer.size) ∧
        ∀ t, (r.1.localDistanceBuffers t).length = db.localDistanceBuffersSize := by
  refine (findKNearest_covers hdb hk hBuffer hProbe hStep knnTask_prunes_any trivial
    (fun _ _ _ _ _ _ _ => trivial) fillSched sched (publishesUnder_true sched)).mono ?_
  rintro r ⟨hresult, -, hcov, hbuffers⟩
  refine ⟨⟨?_, fun hsize => ?_⟩, hbuffers⟩
  · rintro ⟨found, hfound, -⟩
    by_contra hlt
    -- the first place behind the entries has no value
    have hplace : r.2[r.1.internalBuffer.size]? = some none := by
      rw [hresult, List.getElem?_map, List.getElem?_range (by omega), Option.map_some,
        List.getElem?_eq_none (StdVector.length_elems _).le]
    rw [hfound, List.getElem?_map] at hplace
    obtain ⟨e, -, he⟩ := Option.map_eq_some_iff.mp hplace
    cases he
  · refine ⟨r.1.internalBuffer.elems.take k, ?_, ?_⟩
    · rw [hresult, map_getElem?_range ((StdVector.length_elems _).symm ▸ hsize)]
    · exact (Multiset.coe_le.mpr (List.take_sublist _ _).subperm).trans hcov.le

omit [Zero R] in
/-- The heaps of the workers when the search task is over. -/
theorem knn_valid (hdb : db.Searchable) (hk : 0 < k) (hBuffer : k ≤ db.localDistanceBuffersSize)
    (hProbe : nPagesToProbe ≤ (db.queryOrder query).length) (hStep : 0 < step)
    (sched : List (Fin db.nThreads × Bool)) :
    (complete (db.knnTask query k nPagesToProbe step (db.queryOrder query)).findKnnWorker.act
      Loop.isDone sched db.knnStart).Ensures fun c =>
        ∀ t, (c.threads t).work.heap.Valid k db.localDistanceBuffersSize := by
  have : Nonempty (Fin db.nThreads) := ⟨⟨0, hdb.threads⟩⟩
  have hsound : (db.knnTask query k nPagesToProbe step (db.queryOrder query)).findKnnWorker.Sound
      ((db.knnTask query k nPagesToProbe step (db.queryOrder query)).Keeps (fun _ => True)
        db.localDistanceBuffersSize) (fun _ => True) fun _ => True :=
    FindKnn.sound (knnTask_reads hdb hk hProbe) hStep knnTask_prunes_any
      fun _ _ _ _ _ _ _ => trivial
  refine (Loop.submit_sound hsound rfl trivial (fun t => ⟨?_, ?_⟩)
    (publishesUnder_true sched)).mono ?_
  · exact hdb.buffers t ▸ LocalHeap.valid_empty ((hdb.buffers t).symm ▸ hBuffer)
  · exact coversExcept_zero _ _
  · rintro c ⟨visited, -, hkeeps⟩ t
    exact (hkeeps t).valid

/-- If no worker compares an empty heap with the bound, the answer does not
depend on the contents of the buffers. -/
theorem findKNearest_independent (hdb : db.Searchable) (hk : 0 < k)
    (hBuffer : k ≤ db.localDistanceBuffersSize)
    (hProbe : nPagesToProbe ≤ (db.queryOrder query).length) (hStep : 0 < step)
    {b : Buffers db.nThreads R}
    (hb : ∀ t, (b.localDistanceBuffers t).length = db.localDistanceBuffersSize)
    {fillSched : List (Fin db.nThreads × Unit)} {sched : List (Fin db.nThreads × Bool)}
    (hLive : Along (db.knnTask query k nPagesToProbe step (db.queryOrder query)).findKnnWorker.act
      (ComparesLive (db.knnTask query k nPagesToProbe step (db.queryOrder query)).findKnnWorker
        fun w => 0 < w.heap.nOutputs) sched (db.refill b).knnStart)
    {r r' : Database V R × List (Option (IdTaggedDistance R))}
    (hr : db.findKNearest query k nPagesToProbe step fillSched sched = .returned r)
    (hr' : (db.refill b).findKNearest query k nPagesToProbe step fillSched sched = .returned r') :
    r'.2 = r.2 := by
  have hdb' : (db.refill b).Searchable := hdb.refill hb
  -- both distance buffers hold the order of the query
  obtain ⟨buffer, hbuffer, hr⟩ := Outcome.bind_eq_returned.mp hr
  obtain ⟨buffer', hbuffer', hr'⟩ := Outcome.bind_eq_returned.mp hr'
  obtain rfl : buffer = db.queryOrder query :=
    (fillDistToAnchorBuffer_ensures db hdb.coherent hdb.threads query _).of_returned hbuffer
  obtain rfl : buffer' = db.queryOrder query :=
    (fillDistToAnchorBuffer_ensures _ hdb'.coherent hdb'.threads query _).of_returned hbuffer'
  obtain ⟨c, hc, hr⟩ := Outcome.bind_eq_returned.mp hr
  obtain ⟨c', hc', hr'⟩ := Outcome.bind_eq_returned.mp hr'
  obtain ⟨merged, hmerged, hr⟩ := Outcome.bind_eq_returned.mp hr
  obtain ⟨merged', hmerged', hr'⟩ := Outcome.bind_eq_returned.mp hr'
  cases hr
  cases hr'
  have hstart : SameConfig (db.knnTask query k nPagesToProbe step
      (db.queryOrder query)).findKnnWorker FindKnn.SameWork (db.refill b).knnStart db.knnStart :=
    ⟨rfl, rfl, fun t => ⟨rfl,
      LocalHeap.sameLive_empty ((hdb.buffers t).trans (hb t).symm), fun h => by simp [knnStart] at h⟩⟩
  have hrel := rel_submit (FindKnn.agrees hk) hstart hLive
  have hsame := (hc ▸ hc' ▸ hrel).of_returned
  have hvalid := (knn_valid hdb hk hBuffer hProbe hStep sched).of_returned hc
  have houtputs : outputs (fun t => (c'.threads t).work.heap) =
      outputs fun t => (c.threads t).work.heap :=
    List.map_congr_left fun t _ => ((hsame.threads t).work.live).symm
  have hroom : (outputs fun t => (c.threads t).work.heap).flatten.length ≤ db.nThreads * k :=
    length_flatten_outputs_le fun t => (hvalid t).length_live.trans_le (hvalid t).le
  obtain ⟨m, hm, helems⟩ := mergeOutputs_of_le (db.internalBuffer.resize .valueInit (db.nThreads * k))
    (fun t => (c.threads t).work.heap) hroom
  obtain ⟨m', hm', helems'⟩ := mergeOutputs_of_le
    (b.internalBuffer.resize .valueInit (db.nThreads * k))
    (fun t => (c'.threads t).work.heap) (houtputs ▸ hroom)
  obtain rfl : m = merged := Option.some.inj (hm.symm.trans (Outcome.ofOption_eq_returned.mp hmerged))
  obtain rfl : m' = merged' :=
    Option.some.inj (hm'.symm.trans (Outcome.ofOption_eq_returned.mp hmerged'))
  simp only [helems, helems', houtputs]

end Nearest

section Batch

variable [Zero R] [LinearOrder R] {db : Database V R} {queries : List V}
  {k nPagesToProbe step : Nat}

/-- The row that a query of a batch gets, a function of the index and the query. -/
def batchRow (db : Database V R) (queries : List V) (k nPagesToProbe step : Nat) (query : V) :
    List (IdTaggedDistance R) :=
  (((db.batchTask queries k nPagesToProbe step).answerQuery query
    (List.replicate db.localDistanceBuffersSize .valueInit)).map (·.live)).getD []

/-- A row is genuine exactly when the probed pages hold `k` vectors, and then it
is determined by the index and the query. -/
def RowGenuine (db : Database V R) (queries : List V) (k nPagesToProbe step i : Nat)
    (row : List (IdTaggedDistance R)) : Prop :=
  ∀ query, queries[i]? = some query →
    ((row : Multiset _) ≤ db.batchProbed nPagesToProbe query ↔
      k ≤ (db.batchProbed nPagesToProbe query).card) ∧
    (k ≤ (db.batchProbed nPagesToProbe query).card →
      row = db.batchRow queries k nPagesToProbe step query)

theorem answerQuery_rowGenuine (hdb : db.Searchable) (hk : 0 < k)
    (hBuffer : k ≤ db.localDistanceBuffersSize) (i : Nat) (query : V)
    (cells : List (IdTaggedDistance R)) (hquery : queries[i]? = some query)
    (hcells : cells.length = db.localDistanceBuffersSize) :
    ∃ h, (db.batchTask queries k nPagesToProbe step).answerQuery query cells = some h ∧
      h.Valid k cells.length ∧
      db.RowGenuine queries k nPagesToProbe step i (h.heap.take k) := by
  have hreads : (db.batchTask queries k nPagesToProbe step).Reads := batchTask_reads hdb hk
  obtain ⟨h, hrun, hv, hle, hcount⟩ := FindKnnBatch.answerQuery_genuine hreads query
    (hcells.symm ▸ hBuffer)
  refine ⟨h, hrun, hv, fun query' hquery' => ?_⟩
  obtain rfl : query = query' := Option.some.inj (hquery.symm.trans hquery')
  have hlength : (h.heap.take k).length = k := by
    rw [List.length_take, hv.length, hcells]
    exact Nat.min_eq_left hBuffer
  have htake : k ≤ (db.batchProbed nPagesToProbe query).card → h.heap.take k = h.live :=
    fun hcard => LocalHeap.take_eq_live (hcount hcard)
  refine ⟨⟨fun hgenuine => ?_, fun hcard => ?_⟩, fun hcard => ?_⟩
  · have hcard := Multiset.card_le_card hgenuine
    rwa [Multiset.coe_card, hlength] at hcard
  · rw [htake hcard]
    exact hle
  · have hsame := FindKnnBatch.answerQuery_sameLive (T := db.batchTask queries k nPagesToProbe step)
      hk query ((List.length_replicate (a := IdTaggedDistance.valueInit)).trans hcells.symm)
    rw [hrun] at hsame
    obtain ⟨h', hrun', hsame⟩ := rel_some_left hsame
    rw [htake hcard, batchRow, hrun', Option.map_some, Option.getD_some,
      hsame.live]

theorem findKNearestBatch_genuine (hdb : db.Searchable) (hk : 0 < k)
    (hBuffer : k ≤ db.localDistanceBuffersSize) (hStep : 0 < step)
    (sched : List (Fin db.nThreads × Unit)) :
    (db.findKNearestBatch queries k nPagesToProbe step sched).Ensures fun r =>
      (∀ i < queries.length,
        db.RowGenuine queries k nPagesToProbe step i (Rows.row k i r.2)) ∧
      r.2.length = queries.length * k ∧
      ∀ t, (r.1.localDistanceBuffers t).length = db.localDistanceBuffersSize :=
  findKNearestBatch_rows hdb hStep (answerQuery_rowGenuine hdb hk hBuffer) sched

end Batch

/-! ## Sequences of requests -/

section Sequence

variable [Zero R] [LinearOrder R]

theorem answer_buffers {db : Database V R} (hdb : db.Searchable) {req : Request V}
    (hreq : db.Allowed req) {r : Database V R × List (Option (IdTaggedDistance R))}
    (h : db.answer req = .returned r) :
    ∀ t, (r.1.localDistanceBuffers t).length = db.localDistanceBuffersSize := by
  cases req with
  | nearest query k nPagesToProbe step fillSched sched =>
    obtain ⟨hk, hBuffer, hProbe, hStep⟩ := hreq
    exact ((findKNearest_genuine hdb hk hBuffer
      ((length_queryOrder hdb.coherent query).symm ▸ hProbe) hStep _ _).of_returned h).2
  | batch queries k nPagesToProbe step sched =>
    obtain ⟨hk, hBuffer, -, hStep⟩ := hreq
    obtain ⟨s, hs, h⟩ := Outcome.bind_eq_returned.mp h
    cases h
    exact ((findKNearestBatch_genuine hdb hk hBuffer hStep _).of_returned hs).2.2

/-- After any sequence of requests only the buffers may differ. -/
theorem answers_refill {db : Database V R} (hdb : db.Searchable) {earlier : List (Request V)}
    (hEarlier : ∀ req ∈ earlier, db.Allowed req) {db' : Database V R}
    (hrun : db.answers earlier = .returned db') :
    ∃ b, db' = db.refill b ∧
      ∀ t, (b.localDistanceBuffers t).length = db.localDistanceBuffersSize := by
  suffices hgen : ∀ b : Buffers db.nThreads R,
      (∀ t, (b.localDistanceBuffers t).length = db.localDistanceBuffersSize) →
      (db.refill b).answers earlier = .returned db' →
      ∃ b, db' = db.refill b ∧
        ∀ t, (b.localDistanceBuffers t).length = db.localDistanceBuffersSize by
    exact hgen ⟨db.distToAnchorBuffer, db.localDistanceBuffers, db.internalBuffer, db.nPruned⟩
      hdb.buffers hrun
  clear hrun
  induction earlier with
  | nil =>
    intro b hb h
    cases h
    exact ⟨b, rfl, hb⟩
  | cons req rest ih =>
    intro b hb h
    obtain ⟨r, hr, h⟩ := Outcome.bind_eq_returned.mp h
    have hdb' : (db.refill b).Searchable := hdb.refill hb
    obtain ⟨b', hb', -⟩ := answer_refill hdb'.coherent hr
    have hlength := answer_buffers hdb' (hEarlier req List.mem_cons_self) hr
    rw [hb'] at hlength h
    exact ih (fun req hreq => hEarlier req (List.mem_cons_of_mem _ hreq)) b' hlength h

end Sequence

/-- A query for the two nearest of all vectors, two pages at a time. -/
def twoNearest (x : ℚ) : Request (Distance.Vec ℚ 1) :=
  .nearest (.point x) 2 0 2 [] ((roundRobin 2 17).map fun t => (t.1.val, t.2))

/-- A batch that asks for two neighbours on one page of one vector. -/
def underfullBatch : Request (Distance.Vec ℚ 1) :=
  .batch [.point 0] 2 1 1 (List.replicate 4 (0, ()))

end Database

end Spheres
