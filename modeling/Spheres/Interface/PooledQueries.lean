import Spheres.Interface.Requests
import Spheres.Parallel.PoolBodies

/-!
# Queries on the thread pool

A query submits one or two tasks to the pool and reads what the workers leave in
the context and in their local buffers. Here the tasks are the bodies of a pool, so
that their accesses are interleaved with those of the handshake; `pool_answers` shows
that a sequence of queries gets the replies that it gets when each task is one
transition, and that no access goes past the end of a buffer.
-/

namespace Spheres

open Execution Parallel Library Library.Interleaving Library.MorselLoop Library.Selection

variable {V R : Type*}

/-- A call of `find_k_nearest` or `find_k_nearest_batch`. -/
inductive Query (V : Type*) where
  | nearest (query : V) (k nPagesToProbe step : Nat)
  | batch (queries : List V) (k nPagesToProbe step : Nat)

/-- The query with the schedules of its tasks. -/
def Query.request (fillSched : List (Nat × Unit)) (sched : List (Nat × Bool)) :
    Query V → Request V
  | .nearest query k nPagesToProbe step => .nearest query k nPagesToProbe step fillSched sched
  | .batch queries k nPagesToProbe step => .batch queries k nPagesToProbe step fillSched

/-- The tasks that queries submit. -/
inductive QueryTask (V : Type*) where
  | fillDistToAnchor (query : V)
  | findKnn (query : V) (k nPagesToProbe step : Nat)
  | batchFindKnn (queries : List V) (k nPagesToProbe step : Nat)

/-- The fields of `ParallelContext` that the workers write. -/
structure QueryContext (R : Type*) where
  /-- `vector_output_buffer4` of a `FillDistToAnchor` task. -/
  distToAnchorBuffer : List (IdTaggedDistance R)
  /-- `next_morsel`, `shared_data` and `n_pruned`. -/
  morsels : MorselLoop.Shared R
  /-- `next_morsel` and `vector_output_buffer4` of a `BatchFindKnn` task. -/
  rows : MorselRows.Shared (IdTaggedDistance R)

/-- The state of a worker, for each of the bodies. -/
structure QueryWorker (R : Type*) where
  fill : Nat × Nat
  knn : MorselLoop.Thread R (KnnWork R)
  batch : MorselRows.Thread (List (IdTaggedDistance R))

/-- The buffers that are kept from query to query, and the replies so far. -/
structure QueryMemory (n : Nat) (R : Type*) extends Buffers n R where
  replies : List (List (Option (IdTaggedDistance R)))

namespace Database

section Tasks

variable [Zero R] [LinearOrder R] (db : Database V R)

/-- With many pages the distance buffer is filled in parallel. -/
def FillsInParallel : Prop := db.cachedMaxDists.length > db.nThreads * 2

instance : Decidable db.FillsInParallel := inferInstanceAs (Decidable (_ > _))

/-- The tasks that a query submits. -/
def tasks : Query V → List (QueryTask V)
  | .nearest query k nPagesToProbe step =>
    (if db.FillsInParallel then [.fillDistToAnchor query] else []) ++
      [.findKnn query k nPagesToProbe step]
  | .batch queries k nPagesToProbe step => [.batchFindKnn queries k nPagesToProbe step]

/-- What a query does before it submits a task. -/
def submitTask (t : QueryTask V) (m : QueryMemory db.nThreads R) :
    Option (QueryMemory db.nThreads R) :=
  match t with
  | .fillDistToAnchor _ =>
    if db.nThreads = 0 then none
    else some { m with
      distToAnchorBuffer := (db.refill m.toBuffers).resizedDistToAnchorBuffer }
  | .findKnn query _ _ _ =>
    if db.FillsInParallel then some m
    else (fillDistToAnchorBufferSingleThreaded db.installed.distFunc db.cachedVectors
      db.cachedMaxDists query).map fun buffer => { m with distToAnchorBuffer := buffer }
  | .batchFindKnn .. => some m

/-- The context of a task. -/
def taskContext (t : QueryTask V) (m : QueryMemory db.nThreads R) : QueryContext R where
  distToAnchorBuffer := m.distToAnchorBuffer
  morsels := { next := 0, bound := ⊤, tally := m.nPruned }
  rows :=
    { next := 0
      out := match t with
        | .batchFindKnn queries k _ _ => List.replicate (queries.length * k) .valueInit
        | _ => [] }

/-- A worker that begins a body, with its local buffer and `n_outputs = 0`. -/
def enterTask (m : QueryMemory db.nThreads R) (w : Fin db.nThreads) : QueryWorker R where
  fill := (w.val, 0)
  knn := ⟨.fetch, ⟨⟨m.localDistanceBuffers w, 0⟩, 0⟩⟩
  batch := ⟨.fetch, m.localDistanceBuffers w⟩

/-- One access of a worker in the body of a task. -/
def taskAct (t : QueryTask V) (m : QueryMemory db.nThreads R) (weakFailure : Bool)
    (s : QueryContext R) (x : QueryWorker R) : Option (QueryContext R × QueryWorker R) :=
  match t with
  | .fillDistToAnchor query =>
    ((db.fillTask query).act () s.distToAnchorBuffer x.fill).map fun r =>
      ({ s with distToAnchorBuffer := r.1 }, { x with fill := r.2 })
  | .findKnn query k nPagesToProbe step =>
    ((db.knnTask query k nPagesToProbe step m.distToAnchorBuffer).findKnnWorker.act weakFailure
      s.morsels x.knn).map fun r => ({ s with morsels := r.1 }, { x with knn := r.2 })
  | .batchFindKnn queries k nPagesToProbe step =>
    ((db.batchTask queries k nPagesToProbe step).findKnnBatchWorker.act () s.rows x.batch).map
      fun r => ({ s with rows := r.1 }, { x with batch := r.2 })

/-- The worker has left the body of a task. -/
def taskIsDone (t : QueryTask V) (x : QueryWorker R) : Bool :=
  match t with
  | .fillDistToAnchor query => (db.fillTask query).isDone x.fill
  | .findKnn .. => Loop.isDone x.knn
  | .batchFindKnn .. => MorselRows.RowLoop.isDone x.batch

/-- What a query does when a task is over: it sorts the distance buffer, merges the heaps of
the workers, or takes the rows as they are. -/
def finishTask (t : QueryTask V) (m : QueryMemory db.nThreads R) (s : QueryContext R)
    (x : Fin db.nThreads → QueryWorker R) : Option (QueryMemory db.nThreads R) :=
  match t with
  | .fillDistToAnchor _ =>
    some { m with distToAnchorBuffer := s.distToAnchorBuffer.insertionSort (· ≤ ·) }
  | .findKnn _ k _ _ =>
    let heaps := fun w => (x w).knn.work.heap
    (mergeOutputs (m.internalBuffer.resize .valueInit (db.nThreads * k)) heaps).map fun merged =>
      { distToAnchorBuffer := m.distToAnchorBuffer
        localDistanceBuffers := fun w => (heaps w).heap
        internalBuffer := merged
        nPruned := s.morsels.tally
        replies := m.replies ++ [(List.range k).map fun ik => merged.elems[ik]?] }
  | .batchFindKnn .. =>
    some { m with
      localDistanceBuffers := fun w => (x w).batch.work
      replies := m.replies ++ [s.rows.out.map some] }

/-- The tasks of queries as the bodies of a pool. -/
def bodies : Bodies db.nThreads (QueryTask V) (QueryMemory db.nThreads R) (QueryContext R)
    (QueryWorker R) where
  submit := db.submitTask
  shared := db.taskContext
  enter _ := db.enterTask
  act := db.taskAct
  isDone t _ := db.taskIsDone t
  finish := db.finishTask

/-! ## The calls of a query -/

variable {db} {m m' : QueryMemory db.nThreads R} {query : V} {queries : List V}
  {k nPagesToProbe step : Nat}

omit [Zero R] in
/-- The body works on the distance buffer. -/
theorem view_fillDistToAnchor (e : Bool) (s : QueryContext R) (x : QueryWorker R) :
    (db.taskAct (.fillDistToAnchor query) m e s x).map
        (Prod.map QueryContext.distToAnchorBuffer QueryWorker.fill) =
      (db.fillTask query).act () s.distToAnchorBuffer x.fill := by
  rw [taskAct, Option.map_map]
  exact Option.map_id'

omit [Zero R] in
theorem view_findKnn (e : Bool) (s : QueryContext R) (x : QueryWorker R) :
    (db.taskAct (.findKnn query k nPagesToProbe step) m e s x).map
        (Prod.map QueryContext.morsels QueryWorker.knn) =
      (db.knnTask query k nPagesToProbe step m.distToAnchorBuffer).findKnnWorker.act e s.morsels
        x.knn := by
  rw [taskAct, Option.map_map]
  exact Option.map_id'

omit [Zero R] in
theorem view_batchFindKnn (e : Bool) (s : QueryContext R) (x : QueryWorker R) :
    (db.taskAct (.batchFindKnn queries k nPagesToProbe step) m e s x).map
        (Prod.map QueryContext.rows QueryWorker.batch) =
      (db.batchTask queries k nPagesToProbe step).findKnnBatchWorker.act () s.rows x.batch := by
  rw [taskAct, Option.map_map]
  exact Option.map_id'

/-- The task that fills the distance buffer, as the query sees it. -/
theorem call_fillDistToAnchor (hMany : db.FillsInParallel)
    (sched : List (Fin db.nThreads × Bool)) :
    db.bodies.call (.fillDistToAnchor query) m sched =
      ((db.refill m.toBuffers).fillDistToAnchorBuffer query
        (sched.map fun x => (x.1, ()))).bind fun buffer =>
          .returned { m with distToAnchorBuffer := buffer } := by
  have hMany' : (db.refill m.toBuffers).cachedMaxDists.length >
      (db.refill m.toBuffers).nThreads * 2 := hMany
  rw [fillDistToAnchorBuffer, if_pos hMany']
  by_cases hzero : db.nThreads = 0
  · rw [Bodies.call, show db.bodies.submit (.fillDistToAnchor query) m = none from if_pos hzero,
      if_pos (show (db.refill m.toBuffers).nThreads = 0 from hzero)]
    rfl
  · have hsubmit : db.bodies.submit (.fillDistToAnchor query) m = some { m with
        distToAnchorBuffer := (db.refill m.toBuffers).resizedDistToAnchorBuffer } := if_neg hzero
    rw [if_neg (show ¬ (db.refill m.toBuffers).nThreads = 0 from hzero), FillDistToAnchor.submit,
      Outcome.bind_assoc, Outcome.bind_assoc]
    exact Bodies.call_view QueryContext.distToAnchorBuffer QueryWorker.fill (fun _ => ())
      (db.fillTask query).isDone
      (fun c => .returned { m with distToAnchorBuffer := c.shared.insertionSort (· ≤ ·) })
      hsubmit (view_fillDistToAnchor (m := m)) (fun _ => rfl) (fun _ => rfl) sched

/-- What a query makes of the heaps of its workers. -/
def knnReply (k : Nat) (m : QueryMemory db.nThreads R)
    (c : Config (Fin db.nThreads) (MorselLoop.Shared R) (MorselLoop.Thread R (KnnWork R))) :
    Option (QueryMemory db.nThreads R) :=
  (mergeOutputs (m.internalBuffer.resize .valueInit (db.nThreads * k))
    fun w => (c.threads w).work.heap).map fun merged =>
      { distToAnchorBuffer := m.distToAnchorBuffer
        localDistanceBuffers := fun w => (c.threads w).work.heap.heap
        internalBuffer := merged
        nPruned := c.shared.tally
        replies := m.replies ++ [(List.range k).map fun ik => merged.elems[ik]?] }

/-- The search task, once the distance buffer is filled. -/
theorem call_findKnn
    (hsubmit : db.submitTask (.findKnn query k nPagesToProbe step) m = some m')
    (sched : List (Fin db.nThreads × Bool)) :
    db.bodies.call (.findKnn query k nPagesToProbe step) m sched =
      (complete (db.knnTask query k nPagesToProbe step m'.distToAnchorBuffer).findKnnWorker.act
        Loop.isDone sched (db.refill m'.toBuffers).knnStart).bind fun c =>
      Outcome.ofOption (knnReply k m' c) := by
  have hsubmit' : db.bodies.submit (.findKnn query k nPagesToProbe step) m = some m' := hsubmit
  have hcall := Bodies.call_view QueryContext.morsels QueryWorker.knn id Loop.isDone
    (fun c => .ofOption (knnReply k m' c)) hsubmit' view_findKnn (fun _ => rfl) (fun _ => rfl) sched
  simp only [id_eq, List.map_id'] at hcall
  exact hcall

/-- The task of a batch. -/
theorem call_batchFindKnn (sched : List (Fin db.nThreads × Bool)) :
    db.bodies.call (.batchFindKnn queries k nPagesToProbe step) m sched =
      (complete (db.batchTask queries k nPagesToProbe step).findKnnBatchWorker.act
        MorselRows.RowLoop.isDone (sched.map fun x => (x.1, ()))
        ⟨⟨0, List.replicate (queries.length * k) .valueInit⟩,
          fun w => ⟨.fetch, m.localDistanceBuffers w⟩⟩).bind fun c =>
      .returned { m with
        localDistanceBuffers := fun w => (c.threads w).work
        replies := m.replies ++ [c.shared.out.map some] } := by
  have hsubmit : db.bodies.submit (.batchFindKnn queries k nPagesToProbe step) m = some m := rfl
  exact Bodies.call_view QueryContext.rows QueryWorker.batch (fun _ => ())
    MorselRows.RowLoop.isDone (fun c => .returned { m with
      localDistanceBuffers := fun w => (c.threads w).work
      replies := m.replies ++ [c.shared.out.map some] })
    hsubmit (view_batchFindKnn (m := m)) (fun _ => rfl) (fun _ => rfl) sched

/-! ## Replies -/

/-- A request with its reply, under some schedules of its tasks. -/
def Answer (db : Database V R) (e : Query V × List (Option (IdTaggedDistance R)))
    (after : Database V R) : Prop :=
  ∃ fillSched sched, db.answer (e.1.request fillSched sched) = .returned (after, e.2)

/-- The places of `internal_buffer` that a query reads. -/
def places (k : Nat) (m : QueryMemory db.nThreads R) : List (Option (IdTaggedDistance R)) :=
  (List.range k).map fun ik => m.internalBuffer.elems[ik]?

omit [LinearOrder R] in
theorem turnsOf_val {ε : Type*} {n : Nat} (sched : List (Fin n × ε)) :
    turnsOf n (sched.map fun x => (x.1.val, x.2)) = sched := by
  induction sched with
  | nil => rfl
  | cons x sched ih =>
    rw [turnsOf] at ih
    rw [turnsOf, List.map_cons, List.filterMap_cons_some (dif_pos x.1.isLt), ih]

/-- Once the distance buffer is filled, the query is the call of its search task. -/
theorem findKNearest_of_fill {m₀ : QueryMemory db.nThreads R}
    {buffer : List (IdTaggedDistance R)} {fillSched : List (Fin db.nThreads × Unit)}
    (hfill : (db.refill m.toBuffers).fillDistToAnchorBuffer query fillSched = .returned buffer)
    (hsubmit : db.submitTask (.findKnn query k nPagesToProbe step) m₀ =
      some { m with distToAnchorBuffer := buffer }) (sched : List (Fin db.nThreads × Bool)) :
    (db.refill m.toBuffers).findKNearest query k nPagesToProbe step fillSched sched =
      (db.bodies.call (.findKnn query k nPagesToProbe step) m₀ sched).bind fun m' =>
        .returned (db.refill m'.toBuffers, places k m') := by
  show ((db.refill m.toBuffers).fillDistToAnchorBuffer query fillSched).bind _ = _
  rw [hfill, Outcome.bind_returned, call_findKnn hsubmit, Outcome.bind_assoc]
  refine congrArg (Outcome.bind _) (funext fun c => ?_)
  simp only [knnReply, Outcome.ofOption_map, Outcome.bind_assoc]
  rfl

theorem replies_of_findKnn {m₀ : QueryMemory db.nThreads R} {sched : List (Fin db.nThreads × Bool)}
    (hsubmit : db.submitTask (.findKnn query k nPagesToProbe step) m₀ = some m)
    (h : db.bodies.call (.findKnn query k nPagesToProbe step) m₀ sched = .returned m') :
    m'.replies = m.replies ++ [places k m'] := by
  rw [call_findKnn hsubmit] at h
  obtain ⟨c, -, h⟩ := Outcome.bind_eq_returned.mp h
  obtain ⟨merged, -, rfl⟩ := Option.map_eq_some_iff.mp (Outcome.ofOption_eq_returned.mp h)
  rfl

/-- A batch is the call of its task. -/
theorem answer_batch (sched : List (Fin db.nThreads × Bool)) :
    (db.refill m.toBuffers).answer (.batch queries k nPagesToProbe step
        (sched.map fun x => (x.1.val, ()))) =
      (complete (db.batchTask queries k nPagesToProbe step).findKnnBatchWorker.act
        MorselRows.RowLoop.isDone (sched.map fun x => (x.1, ()))
        ⟨⟨0, List.replicate (queries.length * k) .valueInit⟩,
          fun w => ⟨.fetch, m.localDistanceBuffers w⟩⟩).bind fun c =>
      .returned (db.refill { m.toBuffers with
        localDistanceBuffers := fun w => (c.threads w).work }, c.shared.out.map some) := by
  have hturns : turnsOf db.nThreads (sched.map fun x => (x.1.val, ())) =
      sched.map fun x => (x.1, ()) := by
    have := turnsOf_val (sched.map fun x => (x.1, ()))
    rwa [List.map_map] at this
  show (((db.refill m.toBuffers).findKNearestBatch queries k nPagesToProbe step
    (turnsOf db.nThreads _)).bind _) = _
  rw [hturns]
  show ((complete _ _ _ _).bind _).bind _ = _
  rw [Outcome.bind_assoc]
  rfl

/-- How the distance buffer is filled for a query. -/
theorem fill_of_calls {m₁ : QueryMemory db.nThreads R}
    (h : db.bodies.Calls m
      (if db.FillsInParallel then [.fillDistToAnchor query] else []) m₁)
    (hsubmit : (db.submitTask (.findKnn query k nPagesToProbe step) m₁).isSome) :
    ∃ (fillSched : List (Fin db.nThreads × Unit)) (buffer : List (IdTaggedDistance R)),
      (db.refill m.toBuffers).fillDistToAnchorBuffer query fillSched = .returned buffer ∧
      db.submitTask (.findKnn query k nPagesToProbe step) m₁ =
        some { m with distToAnchorBuffer := buffer } := by
  by_cases hMany : db.FillsInParallel
  · rw [if_pos hMany] at h
    obtain ⟨sched, hcall⟩ := steps_singleton.mp h
    rw [call_fillDistToAnchor hMany] at hcall
    obtain ⟨buffer, hbuffer, hcall⟩ := Outcome.bind_eq_returned.mp hcall
    cases hcall
    exact ⟨_, buffer, hbuffer, if_pos hMany⟩
  · rw [if_neg hMany] at h
    cases h
    have hsubmit' : db.submitTask (.findKnn query k nPagesToProbe step) m =
        (fillDistToAnchorBufferSingleThreaded db.installed.distFunc db.cachedVectors
          db.cachedMaxDists query).map fun buffer => { m with distToAnchorBuffer := buffer } :=
      if_neg hMany
    rw [hsubmit', Option.isSome_map] at hsubmit
    obtain ⟨buffer, hbuffer⟩ := Option.isSome_iff_exists.mp hsubmit
    have hfill : (db.refill m.toBuffers).fillDistToAnchorBuffer query [] = .returned buffer := by
      rw [fillDistToAnchorBuffer]
      exact (if_neg hMany).trans (congrArg Outcome.ofOption hbuffer)
    exact ⟨[], buffer, hfill, by rw [hsubmit', hbuffer, Option.map_some]⟩

/-- The calls of one query are one request, under some schedules. -/
theorem answer_of_calls {q : Query V} (h : db.bodies.Calls m (db.tasks q) m') :
    ∃ fillSched sched result, (db.refill m.toBuffers).answer (q.request fillSched sched) =
      .returned (db.refill m'.toBuffers, result) ∧ m'.replies = m.replies ++ [result] := by
  cases q with
  | nearest query k nPagesToProbe step =>
    obtain ⟨m₁, hfill, hknn⟩ := Steps.append h
    obtain ⟨sched, hcall⟩ := steps_singleton.mp hknn
    have hsome : (db.submitTask (.findKnn query k nPagesToProbe step) m₁).isSome := by
      by_contra hnone
      rw [Option.not_isSome_iff_eq_none] at hnone
      rw [Bodies.call, show db.bodies.submit (.findKnn query k nPagesToProbe step) m₁ = none from
        hnone] at hcall
      cases hcall
    obtain ⟨fillSched, buffer, hbuffer, hsubmit⟩ := fill_of_calls hfill hsome
    have hreplies := replies_of_findKnn hsubmit hcall
    refine ⟨fillSched.map fun x => (x.1.val, x.2), sched.map fun x => (x.1.val, x.2), places k m',
      ?_, hreplies⟩
    have hanswer := findKNearest_of_fill hbuffer hsubmit sched
    rw [hcall, Outcome.bind_returned] at hanswer
    show (db.refill m.toBuffers).findKNearest query k nPagesToProbe step
      (turnsOf db.nThreads _) (turnsOf db.nThreads _) = _
    rw [turnsOf_val, turnsOf_val]
    exact hanswer
  | batch queries k nPagesToProbe step =>
    obtain ⟨sched, hcall⟩ := steps_singleton.mp h
    rw [call_batchFindKnn] at hcall
    obtain ⟨c, hc, hcall⟩ := Outcome.bind_eq_returned.mp hcall
    cases hcall
    refine ⟨sched.map fun x => (x.1.val, ()), [], c.shared.out.map some, ?_, rfl⟩
    rw [Query.request, answer_batch, hc]
    rfl

/-- The calls of some queries are as many requests, one after the other. -/
theorem answers_of_calls {qs : List (Query V)}
    (h : db.bodies.Calls m (qs.flatMap db.tasks) m') :
    ∃ replies, m'.replies = m.replies ++ replies ∧ replies.length = qs.length ∧
      Steps Answer (db.refill m.toBuffers) (qs.zip replies) (db.refill m'.toBuffers) := by
  induction qs generalizing m with
  | nil =>
    cases h
    exact ⟨[], (List.append_nil _).symm, rfl, .nil _⟩
  | cons q qs ih =>
    rw [List.flatMap_cons] at h
    obtain ⟨m₁, hq, hqs⟩ := Steps.append h
    obtain ⟨fillSched, sched, result, hanswer, hreply⟩ := answer_of_calls hq
    obtain ⟨replies, hreplies, hlength, hsteps⟩ := ih hqs
    refine ⟨result :: replies, ?_, congrArg (· + 1) hlength,
      .cons ⟨fillSched, sched, hanswer⟩ hsteps⟩
    rw [hreplies, hreply, List.append_assoc, List.singleton_append]

/-! ## No access without a meaning -/

theorem not_faults_fill (hdb : (db.refill m.toBuffers).Searchable) (query : V) :
    ¬ db.bodies.Faults (if db.FillsInParallel then [.fillDistToAnchor query] else []) m := by
  split
  · refine Bodies.not_faults_singleton fun sched hcall => ?_
    rw [call_fillDistToAnchor ‹_›] at hcall
    rcases Outcome.bind_eq_fault.mp hcall with hfault | ⟨_, -, hfault⟩
    · exact (fillDistToAnchorBuffer_ensures _ hdb.coherent hdb.threads query _).ne_fault hfault
    · cases hfault
  · exact Bodies.not_faults_nil

/-- The search task can be submitted. -/
theorem submitTask_isSome (hdb : (db.refill m.toBuffers).Searchable)
    (m₁ : QueryMemory db.nThreads R) :
    (db.submitTask (.findKnn query k nPagesToProbe step) m₁).isSome := by
  by_cases hMany : db.FillsInParallel
  · rw [show db.submitTask (.findKnn query k nPagesToProbe step) m₁ = some m₁ from if_pos hMany,
      Option.isSome_some]
  · have hcoherent : Coherent db.dbStorage.pages db.cachedVectors db.cachedMaxDists :=
      hdb.coherent
    rw [show db.submitTask (.findKnn query k nPagesToProbe step) m₁ = Option.map _ _ from
      if_neg hMany, Option.isSome_map,
      fillDistToAnchorBuffer_eq db.installed.distFunc hcoherent query, Option.isSome_some]

theorem not_faults_tasks (hdb : (db.refill m.toBuffers).Searchable) {q : Query V}
    (hq : db.Allowed (q.request [] [])) : ¬ db.bodies.Faults (db.tasks q) m := by
  cases q with
  | nearest query k nPagesToProbe step =>
    obtain ⟨hk, hBuffer, hProbe, hStep⟩ := hq
    refine Bodies.not_faults_append (not_faults_fill hdb query) fun m₁ hfill =>
      Bodies.not_faults_singleton fun sched hcall => ?_
    obtain ⟨fillSched, buffer, hbuffer, hsubmit⟩ :=
      fill_of_calls hfill (submitTask_isSome hdb m₁)
    have hanswer := findKNearest_of_fill hbuffer hsubmit sched
    rw [hcall] at hanswer
    exact (findKNearest_genuine hdb hk hBuffer
      ((length_queryOrder hdb.coherent query).symm ▸ hProbe) hStep fillSched sched).ne_fault hanswer
  | batch queries k nPagesToProbe step =>
    obtain ⟨hk, hBuffer, -, hStep⟩ := hq
    refine Bodies.not_faults_singleton fun sched hcall => ?_
    rw [call_batchFindKnn] at hcall
    rcases Outcome.bind_eq_fault.mp hcall with hfault | ⟨_, -, hfault⟩
    · have hbatch : (db.refill m.toBuffers).findKNearestBatch queries k nPagesToProbe step
          (sched.map fun x => (x.1, ())) = .fault :=
        Outcome.bind_eq_fault.mpr (Or.inl hfault)
      exact (findKNearestBatch_genuine hdb hk hBuffer hStep _).ne_fault hbatch
    · cases hfault

/-- What the queries need, they leave to the queries after them. -/
theorem not_faults (hdb : (db.refill m.toBuffers).Searchable) {qs : List (Query V)}
    (hqs : ∀ q ∈ qs, db.Allowed (q.request [] [])) :
    ¬ db.bodies.Faults (qs.flatMap db.tasks) m := by
  induction qs generalizing m with
  | nil => exact Bodies.not_faults_nil
  | cons q qs ih =>
    have hq := hqs q List.mem_cons_self
    rw [List.flatMap_cons]
    refine Bodies.not_faults_append (not_faults_tasks hdb hq) fun m₁ hcalls => ?_
    obtain ⟨fillSched, sched, result, hanswer, -⟩ := answer_of_calls hcalls
    have hreq : (db.refill m.toBuffers).Allowed (q.request fillSched sched) := by
      cases q <;> exact hq
    have hdb₁ : (db.refill m₁.toBuffers).Searchable :=
      hdb.refill (b := m₁.toBuffers) (answer_buffers hdb hreq hanswer)
    exact ih hdb₁ fun q' hq' => hqs q' (List.mem_cons_of_mem _ hq')

/-! ## Runs of the pool -/

/-- The memory of a database that has replied to no query yet. -/
def queryMemory (db : Database V R) : QueryMemory db.nThreads R where
  distToAnchorBuffer := db.distToAnchorBuffer
  localDistanceBuffers := db.localDistanceBuffers
  internalBuffer := db.internalBuffer
  nPruned := db.nPruned
  replies := []

/-- The replies are those that the queries get one after the other, and the buffers are what
is left of them then. -/
structure Answered (db : Database V R) (qs : List (Query V)) (m : QueryMemory db.nThreads R) :
    Prop where
  length : m.replies.length = qs.length
  answers : Steps Answer db (qs.zip m.replies) (db.refill m.toBuffers)

theorem answered_of_calls {qs : List (Query V)}
    (h : db.bodies.Calls db.queryMemory (qs.flatMap db.tasks) m) : db.Answered qs m := by
  obtain ⟨replies, hreplies, hlength, hsteps⟩ := answers_of_calls h
  obtain rfl : m.replies = replies := hreplies.trans (List.nil_append _)
  exact ⟨hlength, hsteps⟩

omit [Zero R] [LinearOrder R] in
/-- The calls that are left say which queries are over. -/
theorem take_tasks {first rest : List (Query V)} {j : Nat}
    (hj : j ≤ ((first ++ rest).flatMap db.tasks).length)
    (h : ThreadPool.callsFrom (rest.flatMap db.tasks) 0 =
      ThreadPool.callsFrom ((first ++ rest).flatMap db.tasks) j) :
    ((first ++ rest).flatMap db.tasks).take j = first.flatMap db.tasks := by
  have hlength := congrArg List.length h
  rw [ThreadPool.length_callsFrom, ThreadPool.length_callsFrom, List.flatMap_append,
    List.length_append] at hlength
  rw [List.flatMap_append, List.length_append] at hj
  obtain rfl : j = (first.flatMap db.tasks).length := by omega
  rw [List.flatMap_append, List.take_left]

end Tasks

/-- A query for the two nearest of all vectors, and then a batch of one query. -/
def twoQueries : List (Query (Distance.Vec ℚ 1)) :=
  [.nearest (.point 0) 2 0 2, .batch [.point 5] 2 0 1]

/-- Nothing is left in the context and with the workers. -/
def noContext : Config (Fin fullPages.nThreads) (QueryContext ℚ) (QueryWorker ℚ) where
  shared := ⟨[], ⟨0, ⊤, 0⟩, ⟨0, []⟩⟩
  threads _ := ⟨(0, 0), ⟨.done, ⟨⟨[], 0⟩, 0⟩⟩, ⟨.done, []⟩⟩

/-- The submitter and both workers act in turn. -/
def poolRounds (n : Nat) : List (Option (Fin fullPages.nThreads) × Bool) :=
  (List.replicate n [(none, false), (some ⟨0, by decide⟩, false),
    (some ⟨1, by decide⟩, false)]).flatten

end Database

end Spheres
