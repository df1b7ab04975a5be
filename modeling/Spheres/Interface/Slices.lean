import Spheres.Interface.Calls
import Spheres.Interface.ParallelLoad
import Spheres.Parallel.WorkerSpans

/-!
# The slices of `local_distance_buffers`

Each worker gets a slice of one buffer, whose length the caller of
`create_database` or `load_database` chooses, while the heap in it grows up to
the `k` of a query or the capacity of a page. Nothing relates the three. A call
stays inside the slices when it does the same whatever lies behind them and
leaves that alone (`Inside`).
-/

namespace Spheres

open Execution Parallel Library Library.Interleaving Library.MorselLoop

variable {V R : Type*}

/-- The `k` of a request. -/
def Request.k : Request V → Nat
  | .nearest _ k _ _ _ _ | .batch _ k _ _ _ => k

namespace Database

/-- The database with further cells behind the slice of each worker. -/
def pad (behind : Nat → List (IdTaggedDistance R)) (db : Database V R) : Database V R :=
  { db with localDistanceBuffers := fun t => db.localDistanceBuffers t ++ behind t }

/-- No worker of the call reads or writes what lies behind its slice. -/
def Inside {α : Type*} (call : Database V R → Outcome (Database V R × α)) (db : Database V R) :
    Prop :=
  ∀ behind, call (db.pad behind) = (call db).bind fun r => .returned (r.1.pad behind, r.2)

end Database

/-- The live entries do not depend on what lies behind the slices. -/
theorem outputs_extend {n k size : Nat} {heaps : Fin n → LocalHeap R}
    (hkeeps : ∀ t, (LocalHeap.span k size).keeps (heaps t)) (hfits : k ≤ size)
    (behind : Nat → List (IdTaggedDistance R)) :
    outputs (fun t => (LocalHeap.span k size).extend (behind t) (heaps t)) = outputs heaps := by
  unfold outputs
  congr 1
  funext t
  show ((heaps t).heap ++ behind t).take (heaps t).nOutputs = (heaps t).heap.take _
  rw [List.take_append_of_le_length]
  rw [(hkeeps t).2]
  exact (hkeeps t).1.trans hfits

variable [Zero R] [LinearOrder R]

theorem mergeOutputs_extend {n k size : Nat} {heaps : Fin n → LocalHeap R}
    (hkeeps : ∀ t, (LocalHeap.span k size).keeps (heaps t)) (hfits : k ≤ size)
    (behind : Nat → List (IdTaggedDistance R)) (v : StdVector (IdTaggedDistance R)) :
    mergeOutputs v (fun t => (LocalHeap.span k size).extend (behind t) (heaps t)) =
      mergeOutputs v heaps := by
  rw [mergeOutputs, mergeOutputs, outputs_extend hkeeps hfits behind]

namespace Database

/-! ## Queries -/

section Queries

variable {db : Database V R} {k nPagesToProbe step : Nat}

omit [Zero R] in
/-- The search task of a query keeps the sizes of the slices, and stays inside them
if they have room for `k` entries. -/
theorem knn_keeps (hdb : db.BuffersSized) {query : V} {buffer : List (IdTaggedDistance R)}
    {sched : List (Fin db.nThreads × Bool)} {c : Config (Fin db.nThreads) (Shared R) _}
    (h : complete (db.knnTask query k nPagesToProbe step buffer).findKnnWorker.act Loop.isDone
      sched db.knnStart = .returned c) (t : Fin db.nThreads) :
    (FindKnn.span k db.localDistanceBuffersSize).keeps (c.threads t).work :=
  keeps_complete FindKnn.framed (fun t => ⟨Nat.zero_le _, hdb t⟩) h t

/-- What a query makes of the heaps of its workers. -/
def knnResult (db : Database V R) (k : Nat) (buffer : List (IdTaggedDistance R))
    (c : Config (Fin db.nThreads) (Shared R) (Thread R (KnnWork R))) :
    Outcome (Database V R × List (Option (IdTaggedDistance R))) :=
  let heaps := fun t => (c.threads t).work.heap
  (Outcome.ofOption (mergeOutputs (db.internalBuffer.resize .valueInit (db.nThreads * k))
    heaps)).bind fun merged =>
  .returned
    ({ db with
        distToAnchorBuffer := buffer
        localDistanceBuffers := fun t => (heaps t).heap
        internalBuffer := merged
        nPruned := c.shared.tally },
      (List.range k).map fun ik => merged.elems[ik]?)

theorem findKNearest_eq (db : Database V R) (query : V) (k nPagesToProbe step : Nat)
    (fillSched : List (Fin db.nThreads × Unit)) (sched : List (Fin db.nThreads × Bool)) :
    db.findKNearest query k nPagesToProbe step fillSched sched =
      (db.fillDistToAnchorBuffer query fillSched).bind fun buffer =>
        (complete (db.knnTask query k nPagesToProbe step buffer).findKnnWorker.act Loop.isDone
          sched db.knnStart).bind (db.knnResult k buffer) := rfl

theorem knnResult_pad {c : Config (Fin db.nThreads) (Shared R) (Thread R (KnnWork R))}
    (hkeeps : ∀ t, (FindKnn.span k db.localDistanceBuffersSize).keeps (c.threads t).work)
    (hfits : k ≤ db.localDistanceBuffersSize) (buffer : List (IdTaggedDistance R))
    (behind : Nat → List (IdTaggedDistance R)) :
    (db.pad behind).knnResult k buffer (c.map fun t =>
        Thread.extend (FindKnn.span k db.localDistanceBuffersSize) (behind t)) =
      (db.knnResult k buffer c).bind fun r => .returned (r.1.pad behind, r.2) := by
  have hheaps : ∀ t, (LocalHeap.span k db.localDistanceBuffersSize).keeps (c.threads t).work.heap :=
    hkeeps
  have hmerge := mergeOutputs_extend hheaps hfits behind
    (db.internalBuffer.resize .valueInit (db.nThreads * k))
  simp only [knnResult]
  show (Outcome.ofOption (mergeOutputs (db.internalBuffer.resize .valueInit (db.nThreads * k))
    fun t => (LocalHeap.span k db.localDistanceBuffersSize).extend (behind t)
      (c.threads t).work.heap)).bind _ = _
  rw [hmerge]
  cases mergeOutputs (db.internalBuffer.resize .valueInit (db.nThreads * k)) fun t =>
    (c.threads t).work.heap <;> rfl

theorem findKNearest_pad (hdb : db.BuffersSized) (hk : 0 < k)
    (hfits : k ≤ db.localDistanceBuffersSize) (query : V)
    (fillSched : List (Fin db.nThreads × Unit)) (sched : List (Fin db.nThreads × Bool))
    (behind : Nat → List (IdTaggedDistance R)) :
    (db.pad behind).findKNearest query k nPagesToProbe step fillSched sched =
      (db.findKNearest query k nPagesToProbe step fillSched sched).bind fun r =>
        .returned (r.1.pad behind, r.2) := by
  refine (findKNearest_eq (db.pad behind) query k nPagesToProbe step fillSched sched).trans ?_
  rw [findKNearest_eq]
  show (db.fillDistToAnchorBuffer query fillSched).bind _ = _
  cases db.fillDistToAnchorBuffer query fillSched with
  | fault => rfl
  | blocked => rfl
  | returned buffer =>
    have hrun := complete_extend (F := FindKnn.span k db.localDistanceBuffersSize)
      (L := (db.knnTask query k nPagesToProbe step buffer).findKnnWorker) FindKnn.framed
      ⟨hk, hfits⟩ (fun t : Fin db.nThreads => behind t) sched (c := db.knnStart)
      fun t => ⟨Nat.zero_le _, hdb t⟩
    refine (congrArg (Outcome.bind · ((db.pad behind).knnResult k buffer)) hrun).trans ?_
    show _ = ((complete _ _ sched db.knnStart).bind (db.knnResult k buffer)).bind _
    cases hc : complete (db.knnTask query k nPagesToProbe step buffer).findKnnWorker.act
        Loop.isDone sched db.knnStart with
    | fault => rfl
    | blocked => rfl
    | returned c => exact knnResult_pad (knn_keeps hdb hc) hfits buffer behind

/-- The state of the workers when the task of a batch is submitted. -/
def batchStart (db : Database V R) (nQueries k : Nat) :
    Config (Fin db.nThreads) (MorselRows.Shared (IdTaggedDistance R))
      (MorselRows.Thread (List (IdTaggedDistance R))) :=
  ⟨⟨0, List.replicate (nQueries * k) .valueInit⟩, fun t => ⟨.fetch, db.localDistanceBuffers t⟩⟩

/-- What a batch leaves. -/
def batchResult (db : Database V R)
    (c : Config (Fin db.nThreads) (MorselRows.Shared (IdTaggedDistance R))
      (MorselRows.Thread (List (IdTaggedDistance R)))) :
    Outcome (Database V R × List (IdTaggedDistance R)) :=
  .returned ({ db with localDistanceBuffers := fun t => (c.threads t).work }, c.shared.out)

theorem findKNearestBatch_pad (hdb : db.BuffersSized) (hk : 0 < k)
    (hfits : k ≤ db.localDistanceBuffersSize) (queries : List V) (nPagesToProbe step : Nat)
    (sched : List (Fin db.nThreads × Unit)) (behind : Nat → List (IdTaggedDistance R)) :
    (db.pad behind).findKNearestBatch queries k nPagesToProbe step sched =
      (db.findKNearestBatch queries k nPagesToProbe step sched).bind fun r =>
        .returned (r.1.pad behind, r.2) := by
  have hrun := MorselRows.complete_extend (F := FindKnnBatch.span k db.localDistanceBuffersSize)
    (L := (db.batchTask queries k nPagesToProbe step).findKnnBatchWorker) FindKnnBatch.framed
    ⟨hk, hfits⟩ (fun t : Fin db.nThreads => behind t) sched
    (c := db.batchStart queries.length k) hdb
  refine (congrArg (Outcome.bind · (db.pad behind).batchResult) hrun).trans ?_
  show _ = ((complete _ _ sched (db.batchStart queries.length k)).bind db.batchResult).bind _
  cases complete (db.batchTask queries k nPagesToProbe step).findKnnBatchWorker.act
    MorselRows.RowLoop.isDone sched (db.batchStart queries.length k) <;> rfl

/-- With room for `k` entries a request stays inside the slices. -/
theorem answer_inside (hdb : db.BuffersSized) {req : Request V} (hk : 0 < req.k)
    (hfits : req.k ≤ db.localDistanceBuffersSize) : db.Inside fun db => db.answer req := by
  intro behind
  cases req with
  | nearest query k nPagesToProbe step fillSched sched =>
    exact findKNearest_pad hdb hk hfits query _ _ behind
  | batch queries k nPagesToProbe step sched =>
    replace hk : 0 < k := hk
    replace hfits : k ≤ db.localDistanceBuffersSize := hfits
    refine (congrArg (Outcome.bind · fun r => .returned (r.1, r.2.map some))
      (findKNearestBatch_pad hdb hk hfits queries nPagesToProbe step (turnsOf _ sched)
        behind)).trans ?_
    simp only [answer]
    cases db.findKNearestBatch queries k nPagesToProbe step (turnsOf db.nThreads sched) <;> rfl

end Queries

end Database

/-! ## Bulk loads -/

namespace PrefillState

variable {st st' : PrefillState V R} {maxNum step : Nat}

def pad (behind : Nat → List (IdTaggedDistance R)) (st : PrefillState V R) : PrefillState V R :=
  { st with db := st.db.pad behind }

omit [Zero R] in
theorem submit_keeps (hdb : st.db.BuffersSized) {sched : List (Nat × Bool)}
    {c : Config (Fin st.db.nThreads) (Shared R) (Thread R (LocalHeap R))}
    (h : st.submit maxNum step sched = .returned c) (t : Fin st.db.nThreads) :
    (LocalHeap.span maxNum st.db.localDistanceBuffersSize).keeps (c.threads t).work :=
  keeps_complete (BatchPrefill.framed (T := st.task maxNum step))
    (fun t => ⟨Nat.zero_le _, hdb t⟩) h t

/-- A round keeps the sizes of the slices. -/
theorem round_keeps (hdb : st.db.BuffersSized) {sched : List (Nat × Bool)}
    (h : st.round maxNum step sched = .returned st') :
    st'.db.BuffersSized ∧
      st'.db.localDistanceBuffersSize = st.db.localDistanceBuffersSize := by
  obtain ⟨c, hc, hstore⟩ := Outcome.bind_eq_returned.mp h
  obtain ⟨merged, -, hrun⟩ := Option.bind_eq_some_iff.mp (Outcome.ofOption_eq_returned.mp hstore)
  obtain ⟨last, -, hrun⟩ := Option.bind_eq_some_iff.mp hrun
  obtain ⟨l, -, rfl⟩ := Option.map_eq_some_iff.mp hrun
  exact ⟨fun t => (submit_keeps hdb hc t).2, rfl⟩

theorem storeNearest_pad {heaps : Fin st.db.nThreads → LocalHeap R}
    (hheaps : ∀ t, (LocalHeap.span maxNum st.db.localDistanceBuffersSize).keeps (heaps t))
    (hfits : maxNum ≤ st.db.localDistanceBuffersSize)
    (behind : Nat → List (IdTaggedDistance R)) :
    (st.pad behind).storeNearest maxNum (fun t =>
        (LocalHeap.span maxNum st.db.localDistanceBuffersSize).extend (behind t) (heaps t)) =
      (st.storeNearest maxNum heaps).map (pad behind) := by
  have hmerge := mergeOutputs_extend hheaps hfits behind st.db.internalBuffer
  show (mergeOutputs st.db.internalBuffer fun t =>
    (LocalHeap.span maxNum st.db.localDistanceBuffersSize).extend (behind t) (heaps t)).bind _ = _
  rw [hmerge, storeNearest]
  cases mergeOutputs st.db.internalBuffer heaps with
  | none => rfl
  | some merged =>
    simp only [Option.bind_some]
    cases merged.elems[min maxNum merged.size - 1]? with
    | none => rfl
    | some last =>
      simp only [Option.bind_some, Option.map_map]
      rfl

theorem round_pad (hdb : st.db.BuffersSized) (hmax : 0 < maxNum)
    (hfits : maxNum ≤ st.db.localDistanceBuffersSize) (sched : List (Nat × Bool))
    (behind : Nat → List (IdTaggedDistance R)) :
    (st.pad behind).round maxNum step sched =
      (st.round maxNum step sched).bind fun st' => .returned (st'.pad behind) := by
  have hrun := complete_extend
    (F := LocalHeap.span maxNum st.db.localDistanceBuffersSize)
    (L := (st.task maxNum step).batchPrefillWorker) BatchPrefill.framed ⟨hmax, hfits⟩
    (fun t : Fin st.db.nThreads => behind t) (turnsOf _ sched) (c := st.start)
    fun t => ⟨Nat.zero_le _, hdb t⟩
  refine (congrArg (Outcome.bind · fun c => .ofOption
    ((st.pad behind).storeNearest maxNum fun t => (c.threads t).work)) hrun).trans ?_
  show ((st.submit maxNum step sched).bind _).bind _ =
    ((st.submit maxNum step sched).bind _).bind _
  cases hc : st.submit maxNum step sched with
  | fault => rfl
  | blocked => rfl
  | returned c =>
    refine (congrArg Outcome.ofOption
      (storeNearest_pad (submit_keeps hdb hc) hfits behind)).trans ?_
    simp only [Outcome.bind_returned]
    cases st.storeNearest maxNum fun t => (c.threads t).work <;> rfl

end PrefillState

namespace Database

variable [Inhabited V] {db : Database V R}

omit [LinearOrder R] [Inhabited V] in
theorem prefillInit_buffers {newVectors : List V} {ids : List Nat} {maxNum : Nat}
    {st : PrefillState V R} (h : db.prefillInit newVectors ids maxNum = some st) :
    0 < maxNum ∧ (db.BuffersSized → st.db.BuffersSized) ∧
      st.db.localDistanceBuffersSize = db.localDistanceBuffersSize := by
  obtain ⟨s, hs, rfl⟩ := Option.map_eq_some_iff.mp h
  refine ⟨?_, id, rfl⟩
  apply Nat.pos_of_ne_zero
  rintro rfl
  rw [prepareFiles, if_pos (Or.inr (by rw [Nat.zero_mul, Nat.zero_div]))] at hs
  cases hs

omit [LinearOrder R] [Inhabited V] in
theorem prefillInit_pad (newVectors : List V) (ids : List Nat) (maxNum : Nat)
    (behind : Nat → List (IdTaggedDistance R)) :
    (db.pad behind).prefillInit newVectors ids maxNum =
      (db.prefillInit newVectors ids maxNum).map (PrefillState.pad behind) := by
  unfold prefillInit
  rw [Option.map_map]
  rfl

/-- The loop of a parallel bulk load and what follows it. -/
def prefillLoop (nThreads maxNum step : Nat) (scheds : List (List (Nat × Bool)))
    (st : PrefillState V R) : Outcome (Database V R × List V × List Nat) :=
  if nThreads = 0 then .fault else
  (Outcome.repeatUntil (fun st => st.newVectors.isEmpty) (PrefillState.round maxNum step) scheds
    st).bind fun st =>
  (Outcome.ofOption st.db.updateCaches).bind fun c =>
  .returned ({ st.db with toCore := c }, st.newVectors, st.ids)

theorem batchPrefillParallel_eq (db : Database V R) (newVectors : List V) (ids : List Nat)
    (density : ℚ) (scheds : List (List (Nat × Bool))) :
    db.batchPrefillParallel newVectors ids density scheds =
      (Outcome.ofOption (db.prefillInit newVectors ids
        (maxNumVectors db.dbStorage.maxNumVectorsPerPage density))).bind
      (prefillLoop db.nThreads (maxNumVectors db.dbStorage.maxNumVectorsPerPage density)
        (newVectors.length / db.nThreads / 2) scheds) := rfl

theorem prefillLoop_pad {maxNum size : Nat} (hmax : 0 < maxNum) (hfits : maxNum ≤ size)
    (nThreads step : Nat) (scheds : List (List (Nat × Bool))) {st : PrefillState V R}
    (hdb : st.db.BuffersSized) (hsize : st.db.localDistanceBuffersSize = size)
    (behind : Nat → List (IdTaggedDistance R)) :
    prefillLoop nThreads maxNum step scheds (st.pad behind) =
      (prefillLoop nThreads maxNum step scheds st).bind fun r =>
        .returned (r.1.pad behind, r.2) := by
  have hkeep : ∀ (st : PrefillState V R) sched st',
      (st.db.BuffersSized ∧ st.db.localDistanceBuffersSize = size) →
      st.round maxNum step sched = .returned st' →
      st'.db.BuffersSized ∧ st'.db.localDistanceBuffersSize = size := by
    rintro st sched st' ⟨hdb, hsize⟩ hround
    obtain ⟨hdb', hsize'⟩ := PrefillState.round_keeps hdb hround
    exact ⟨hdb', hsize'.trans hsize⟩
  have hloop := Outcome.repeatUntil_map (fun st => st.newVectors.isEmpty) hkeep
    (fun st sched hst => PrefillState.round_pad hst.1 hmax (hfits.trans_eq hst.2.symm) sched behind)
    (fun _ => rfl) scheds ⟨hdb, hsize⟩
  unfold prefillLoop
  split
  · rfl
  · rw [hloop]
    cases Outcome.repeatUntil (fun st : PrefillState V R => st.newVectors.isEmpty)
        (PrefillState.round maxNum step) scheds st with
    | fault => rfl
    | blocked => rfl
    | returned st' =>
      show (Outcome.ofOption st'.db.updateCaches).bind _ =
        ((Outcome.ofOption st'.db.updateCaches).bind _).bind _
      cases st'.db.updateCaches <;> rfl

/-- With room for all vectors of a page a bulk load stays inside the slices. -/
theorem batchPrefillParallel_inside (hdb : db.BuffersSized) (newVectors : List V)
    (ids : List Nat) {density : ℚ}
    (hfits : maxNumVectors db.dbStorage.maxNumVectorsPerPage density ≤ db.localDistanceBuffersSize)
    (scheds : List (List (Nat × Bool))) :
    db.Inside fun db => db.batchPrefillParallel newVectors ids density scheds := by
  intro behind
  have hinit : (db.pad behind).prefillInit newVectors ids _ = _ := prefillInit_pad newVectors ids
    (maxNumVectors db.dbStorage.maxNumVectorsPerPage density) behind
  refine (congrArg (fun o => (Outcome.ofOption o).bind (prefillLoop db.nThreads
    (maxNumVectors db.dbStorage.maxNumVectorsPerPage density) (newVectors.length / db.nThreads / 2)
    scheds)) hinit).trans ?_
  show _ = (db.batchPrefillParallel newVectors ids density scheds).bind _
  rw [batchPrefillParallel_eq]
  cases hst : db.prefillInit newVectors ids
      (maxNumVectors db.dbStorage.maxNumVectorsPerPage density) with
  | none => rfl
  | some st =>
    obtain ⟨hmax, hbuffers, hsize⟩ := prefillInit_buffers hst
    exact prefillLoop_pad hmax hfits _ _ scheds (hbuffers hdb) hsize behind

/-! ## Slices that are too short -/

/-- A batch of one query, in which the first worker starts with the query. -/
def firstQuery (query : V) (k : Nat) : Request V := .batch [query] k 0 1 [(0, ()), (0, ())]

omit [Inhabited V] in
/-- A batch copies `k` cells for each query, also if the slice has fewer. -/
theorem firstQuery_fault (h : db.Searchable) {k : Nat} (hk : db.localDistanceBuffersSize < k)
    (query : V) : db.answer (firstQuery query k) = .fault := by
  have hturns : turnsOf db.nThreads [(0, ()), (0, ())] =
      [(⟨0, h.threads⟩, ()), (⟨0, h.threads⟩, ())] := by
    simp [turnsOf, h.threads]
  have hrow := MorselRows.RowLoop.complete_first_row
    (L := (db.batchTask [query] k 0 1).findKnnBatchWorker) Nat.one_pos Nat.one_pos
    (c := db.batchStart 1 k) (t := ⟨0, h.threads⟩) rfl rfl
    (FindKnnBatch.row_eq_none ((h.buffers _).trans_lt hk) 0)
  unfold firstQuery answer
  show (((complete _ _ (turnsOf db.nThreads _) (db.batchStart 1 k)).bind _).bind _) = _
  rw [hturns, hrow]
  rfl

omit [Inhabited V] in
/-- With enough cells behind the slices it has a result. -/
theorem firstQuery_pad (h : db.Searchable) {k : Nat} (hk : 0 < k) (query : V) :
    (db.pad fun _ => List.replicate k .valueInit).answer (firstQuery query k) ≠ .fault := by
  have hsound : (db.batchTask [query] k 0 1).findKnnBatchWorker.Sound
      (fun cells => cells.length = db.localDistanceBuffersSize + k) fun _ _ => True := by
    refine ⟨Nat.one_pos, fun i hi cells hcells => ?_⟩
    have hroom : k ≤ cells.length := hcells.symm ▸ Nat.le_add_left _ _
    obtain ⟨g, hrun, hv, -⟩ := FindKnnBatch.answerQuery_genuine (batchTask_reads h hk)
      ([query][i]) hroom
    refine ⟨g.heap, g.heap.take k, FindKnnBatch.row_eq_some (List.getElem?_eq_getElem hi) hrun hv,
      hv.length.trans hcells, ?_, trivial⟩
    rw [List.length_take, hv.length]
    exact Nat.min_eq_left hroom
  have : Nonempty (Fin db.nThreads) := ⟨⟨0, h.threads⟩⟩
  have hcells : ∀ t : Fin db.nThreads, (db.localDistanceBuffers t ++
      List.replicate k (IdTaggedDistance.valueInit : IdTaggedDistance R)).length =
        db.localDistanceBuffersSize + k := by
    intro t
    rw [List.length_append, h.buffers t, List.length_replicate]
  have hrun := MorselRows.RowLoop.submit_rows hsound
    (List.length_replicate (a := (IdTaggedDistance.valueInit : IdTaggedDistance R))) hcells
    (turnsOf db.nThreads [(0, ()), (0, ())])
  intro hfault
  obtain hbad | ⟨s, hs, hbad⟩ := Outcome.bind_eq_fault.mp hfault
  · obtain hbad | ⟨c, -, hbad⟩ := Outcome.bind_eq_fault.mp hbad
    · exact (hbad ▸ hrun :)
    · cases hbad
  · cases hbad

end Database

omit [Zero R] in
/-- The first worker starts with its first morsel: it leaves its slice when that has
fewer cells than the morsel vectors. -/
theorem PrefillState.submit_firstMorsel {st : PrefillState V R} {maxNum step : Nat}
    (hThreads : 0 < st.db.nThreads) (hstep : 0 < step) (hmany : step ≤ st.newVectors.length)
    (hmax : step ≤ maxNum) :
    st.submit maxNum step [(0, false), (0, false)] =
      if step ≤ (st.db.localDistanceBuffers ⟨0, hThreads⟩).length then .blocked else .fault := by
  have hturns : turnsOf st.db.nThreads [(0, false), (0, false)] =
      [(⟨0, hThreads⟩, false), (⟨0, hThreads⟩, false)] := by
    simp [turnsOf, hThreads]
  have hfits := BatchPrefill.first_morsel_fits (T := st.task maxNum step) hstep hmax hmany rfl
    (st.db.localDistanceBuffers ⟨0, hThreads⟩)
  rw [submit, hturns, Loop.complete_first_claim (hstep.trans_le hmany) rfl rfl]
  exact if_congr hfits rfl rfl

namespace Database

variable [Inhabited V] {db : Database V R}

/-- The schedule of a bulk load in which the first worker starts with a morsel. -/
def firstMorsel : List (List (Nat × Bool)) := [[(0, false), (0, false)]]

theorem batchPrefillParallel_firstMorsel (hThreads : 0 < db.nThreads)
    (huniform : db.dbStorage.Uniform) {density : ℚ} {newVectors : List V}
    (hstep : 0 < newVectors.length / db.nThreads / 2)
    (hmax : newVectors.length / db.nThreads / 2 ≤
      maxNumVectors db.dbStorage.maxNumVectorsPerPage density) (ids : List Nat) :
    db.batchPrefillParallel newVectors ids density firstMorsel =
      if newVectors.length / db.nThreads / 2 ≤ (db.localDistanceBuffers ⟨0, hThreads⟩).length then
        .blocked
      else .fault := by
  obtain ⟨s, hs⟩ := prepareFiles_isSome huniform (hstep.trans_le hmax) ids.length
  have hmany : newVectors.length / db.nThreads / 2 ≤ newVectors.length :=
    (Nat.div_le_self _ _).trans (Nat.div_le_self _ _)
  have hempty : ¬ newVectors.isEmpty = true := by
    rw [List.isEmpty_iff]
    rintro rfl
    rw [List.length_nil, Nat.zero_div, Nat.zero_div] at hstep
    exact hstep.false
  rw [batchPrefillParallel_eq, prefillInit, hs]
  simp only [Option.map_some, Outcome.ofOption_some, Outcome.bind_returned, prefillLoop,
    if_neg hThreads.ne', firstMorsel, Outcome.repeatUntil, if_neg hempty, PrefillState.round]
  rw [PrefillState.submit_firstMorsel hThreads hstep hmany hmax]
  split <;> rfl

/-- A bulk load leaves a slice when a page takes more vectors than it has cells. -/
theorem firstMorsel_outside (hdb : db.BuffersSized) (hThreads : 0 < db.nThreads)
    (huniform : db.dbStorage.Uniform) {density : ℚ}
    (hshort : db.localDistanceBuffersSize <
      maxNumVectors db.dbStorage.maxNumVectorsPerPage density) {newVectors : List V}
    (hmany : newVectors.length / db.nThreads / 2 = db.localDistanceBuffersSize + 1)
    (ids : List Nat) :
    ¬ db.Inside fun db => db.batchPrefillParallel newVectors ids density firstMorsel := by
  intro hinside
  have hpad := hinside fun _ => [IdTaggedDistance.valueInit]
  have hstep : 0 < newVectors.length / db.nThreads / 2 := hmany ▸ Nat.succ_pos _
  have hmax : newVectors.length / db.nThreads / 2 ≤
      maxNumVectors db.dbStorage.maxNumVectorsPerPage density := hmany.trans_le hshort
  have halone := batchPrefillParallel_firstMorsel hThreads huniform hstep hmax ids
  have hThreads' : 0 < (db.pad fun _ => [IdTaggedDistance.valueInit]).nThreads := hThreads
  have hbehind := batchPrefillParallel_firstMorsel hThreads' huniform hstep hmax ids
  have hlength : (db.localDistanceBuffers ⟨0, hThreads⟩).length = db.localDistanceBuffersSize :=
    hdb _
  have hlength' : ((db.pad fun _ => [IdTaggedDistance.valueInit]).localDistanceBuffers
      ⟨0, hThreads⟩).length = db.localDistanceBuffersSize + 1 := by
    show (db.localDistanceBuffers ⟨0, hThreads⟩ ++ [IdTaggedDistance.valueInit]).length = _
    rw [List.length_append, hlength, List.length_singleton]
  rw [hlength, if_neg (by omega)] at halone
  replace hbehind := hbehind.trans (if_pos (hmany.le.trans_eq hlength'.symm))
  simp only [halone, hbehind] at hpad
  cases hpad

omit [Inhabited V] in
/-- A query leaves a slice that has fewer than `k` cells. -/
theorem firstQuery_outside (h : db.Searchable) {k : Nat} (hk : db.localDistanceBuffersSize < k)
    (query : V) : ¬ db.Inside fun db => db.answer (firstQuery query k) := by
  intro hinside
  have hpad := hinside fun _ => List.replicate k .valueInit
  simp only [firstQuery_fault h hk query] at hpad
  exact firstQuery_pad h (Nat.zero_lt_of_lt hk) query hpad

/-! ## Whole runs -/

section Runs

variable {installed : SupportedDistanceFunctions → Installed V R} {after : Database V R}

omit [LinearOrder R] in
theorem construct_buffersSized {image : DiskImage V R} {nThreads buffersSize : Nat}
    (h : construct installed image nThreads buffersSize = some db) : db.BuffersSized := by
  obtain ⟨s, -, rfl⟩ := Option.map_eq_some_iff.mp h
  intro t
  exact List.length_replicate

omit [Inhabited V] in
theorem BuffersSized.answer (hdb : db.BuffersSized) {req : Request V}
    {result : List (Option (IdTaggedDistance R))} (h : db.answer req = .returned (after, result)) :
    after.BuffersSized := by
  cases req with
  | nearest query k nPagesToProbe step fillSched sched =>
    replace h : db.findKNearest query k nPagesToProbe step _ _ = .returned (after, result) := h
    rw [findKNearest_eq] at h
    obtain ⟨buffer, -, h⟩ := Outcome.bind_eq_returned.mp h
    obtain ⟨c, hc, h⟩ := Outcome.bind_eq_returned.mp h
    obtain ⟨merged, -, h⟩ := Outcome.bind_eq_returned.mp h
    cases h
    intro t
    exact (knn_keeps hdb hc t).2
  | batch queries k nPagesToProbe step sched =>
    obtain ⟨⟨left, out⟩, hbatch, h⟩ := Outcome.bind_eq_returned.mp h
    cases h
    obtain ⟨c, hc, hbatch⟩ := Outcome.bind_eq_returned.mp hbatch
    cases hbatch
    intro t
    exact MorselRows.keeps_complete (F := FindKnnBatch.span k db.localDistanceBuffersSize)
      (L := (db.batchTask queries k nPagesToProbe step).findKnnBatchWorker)
      (c := db.batchStart queries.length k) FindKnnBatch.framed hdb hc t

theorem BuffersSized.batchPrefillParallel (hdb : db.BuffersSized) {newVectors : List V}
    {ids : List Nat} {density : ℚ} {scheds : List (List (Nat × Bool))} {left : List V × List Nat}
    (h : db.batchPrefillParallel newVectors ids density scheds = .returned (after, left)) :
    after.BuffersSized := by
  obtain ⟨st, hst, h⟩ := Outcome.bind_eq_returned.mp h
  obtain ⟨-, hbuffers, -⟩ := prefillInit_buffers (Outcome.ofOption_eq_returned.mp hst)
  split at h
  · cases h
  obtain ⟨st', hloop, h⟩ := Outcome.bind_eq_returned.mp h
  obtain ⟨c, -, h⟩ := Outcome.bind_eq_returned.mp h
  cases h
  exact (Outcome.repeatUntil_returned (fun st => st.db.BuffersSized)
    (fun _ _ _ hst _ hround => (PrefillState.round_keeps hst hround).1) (hbuffers hdb) hloop).1

/-- The slices keep the size that they were made with. -/
theorem BuffersSized.returns (hdb : db.BuffersSized) {call : Call V}
    (h : db.Returns installed call after) : after.BuffersSized := by
  cases call with
  | insertAVector newId newVector density =>
    obtain ⟨n, h⟩ := h
    obtain ⟨c, -, rfl⟩ := Option.map_eq_some_iff.mp (h n le_rfl)
    exact hdb
  | request req =>
    obtain ⟨result, h⟩ := h
    exact hdb.answer h
  | batchPrefill newVectors ids density =>
    obtain ⟨left, h⟩ := h
    obtain ⟨l, -, h⟩ := Option.bind_eq_some_iff.mp h
    obtain ⟨c, -, h⟩ := Option.map_eq_some_iff.mp h
    cases h
    exact hdb
  | batchPrefillParallel newVectors ids density scheds =>
    obtain ⟨left, h⟩ := h
    exact hdb.batchPrefillParallel h
  | reopen nThreads buffersSize =>
    obtain ⟨opened, hopened, h⟩ := Option.bind_eq_some_iff.mp h
    obtain ⟨c, -, rfl⟩ := Option.map_eq_some_iff.mp h
    exact fun t => construct_buffersSized hopened t

theorem BuffersSized.run (hdb : db.BuffersSized)
    {allowed : Database V R → Call V → Database V R → Prop}
    (hrun : Run installed allowed db after) : after.BuffersSized :=
  hrun.invariant BuffersSized (fun _ _ _ hdb _ h => hdb.returns h) hdb

end Runs

/-! ## Which calls stay inside -/

section Workers

variable {installed : SupportedDistanceFunctions → Installed V R} {dist : DistFunc V R}
  {pageSize fileSize dim nThreads buffersSize : Nat} {dtype : SupportedDataType}
  {distanceFunction : SupportedDistanceFunctions} {after : Database V R}

end Workers

end Database

section Example

open Distance

/-- With the default arguments, vectors of 128 floats and one thread. -/
def createDefault : Option (Database (Vec ℚ 128) ℚ) :=
  Database.create (fun _ => squaredL2Installed ℚ 128) Defaults.defaultPageSize
    Defaults.defaultSingleFileSize .float 128 .squaredL2Distance 1
    Defaults.defaultThreadLocalBufferSize

def defaultDatabase : Database (Vec ℚ 128) ℚ := createDefault.get (by decide +kernel)

end Example

end Spheres
