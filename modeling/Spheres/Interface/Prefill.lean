import Spheres.Execution.PrefillExact
import Spheres.Interface.Database
import Spheres.Library.MorselProgress
import Spheres.Library.Repeat
import Spheres.Parallel.BatchPrefill

/-!
# Bulk loads

`batch_prefill` runs with one thread. `batch_prefill_parallel` submits a task
for every page, merges what the workers chose and stores the nearest of it; the
size of `internal_buffer` is left from round to round. A round is sound when the
outputs fit what the buffer held and there is a page for them.
-/

namespace Spheres

open Execution Parallel Library Library.Interleaving Library.MorselLoop Library.Selection

variable {V R : Type*} [Zero R] [LinearOrder R]

/-- The loop of `batch_prefill_parallel` between two rounds. -/
structure PrefillState (V R : Type*) where
  db : Database V R
  newVectors : List V
  ids : List Nat
  pageIdx : Nat

namespace PrefillState

/-- What the load takes by reference, in the state of the loop. -/
def load (st : PrefillState V R) : Load V R := ⟨st.db.dbStorage, st.newVectors, st.ids⟩

/-- The `BatchPrefill` task of a round. -/
def task (maxNum step : Nat) (st : PrefillState V R) : BatchPrefill V R where
  distFunc := st.db.installed.distFunc
  vectors := st.newVectors
  maxNumVectorsInPage := maxNum
  maxMorsel := st.newVectors.length
  morselStep := step

/-- The state of the workers when the task is submitted. -/
def start (st : PrefillState V R) :
    Config (Fin st.db.nThreads) (Shared R) (Thread R (LocalHeap R)) where
  shared := { next := 0, bound := ⊤, tally := st.db.nPruned }
  threads t := ⟨.fetch, ⟨st.db.localDistanceBuffers t, 0⟩⟩

/-- The loop after a round that left `merged` in `internal_buffer`. -/
def next (st : PrefillState V R) (heaps : Fin st.db.nThreads → LocalHeap R)
    (merged : StdVector (IdTaggedDistance R)) (l : Load V R) : PrefillState V R where
  db := { st.db with
    dbStorage := l.dbStorage
    localDistanceBuffers := fun t => (heaps t).heap
    internalBuffer := merged }
  newVectors := l.newVectors
  ids := l.ids
  pageIdx := st.pageIdx + 1

/-- Merge the outputs, store the nearest ones on the next page and erase them
from the lists. -/
def storeNearest (maxNum : Nat) (st : PrefillState V R)
    (heaps : Fin st.db.nThreads → LocalHeap R) : Option (PrefillState V R) :=
  (mergeOutputs st.db.internalBuffer heaps).bind fun merged =>
  let nVectors := min maxNum merged.size
  (merged.elems[nVectors - 1]?).bind fun last =>
  (st.load.storePage st.pageIdx ((merged.elems.take nVectors).map (·.second)) last.first).map
    (st.next heaps merged)

/-- The outcome of the task of a round. -/
def submit (maxNum step : Nat) (sched : List (Nat × Bool)) (st : PrefillState V R) :
    Outcome (Config (Fin st.db.nThreads) (Shared R) (Thread R (LocalHeap R))) :=
  complete (st.task maxNum step).batchPrefillWorker.act Loop.isDone (turnsOf _ sched) st.start

/-- One round of the loop. -/
def round (maxNum step : Nat) (sched : List (Nat × Bool)) (st : PrefillState V R) :
    Outcome (PrefillState V R) :=
  (st.submit maxNum step sched).bind fun c =>
  .ofOption (st.storeNearest maxNum fun t => (c.threads t).work)

end PrefillState

namespace Database

/-- `batch_prefill`. The two lists are taken by reference. -/
def batchPrefill [Inhabited V] (db : Database V R) (newVectors : List V) (ids : List Nat)
    (inPageVectorDensity : ℚ) : Option (Database V R × List V × List Nat) :=
  (Load.batchPrefillSingleThreaded db.installed.distFunc inPageVectorDensity
    ⟨db.dbStorage, newVectors, ids⟩).bind fun l =>
  ({ db.toCore with dbStorage := l.dbStorage } : Core V R).updateCaches.map fun c =>
  ({ db with toCore := c }, l.newVectors, l.ids)

/-- What `batch_prefill_parallel` does before its loop. -/
def prefillInit (db : Database V R) (newVectors : List V) (ids : List Nat) (maxNum : Nat) :
    Option (PrefillState V R) :=
  (prepareFiles maxNum ids.length db.dbStorage).map fun s =>
  { db := { db with
      dbStorage := s
      internalBuffer := db.internalBuffer.resize .valueInit (maxNum * db.nThreads) }
    newVectors
    ids
    pageIdx := 0 }

/-- `batch_prefill_parallel`, with a schedule for each round. -/
def batchPrefillParallel [Inhabited V] (db : Database V R) (newVectors : List V) (ids : List Nat)
    (inPageVectorDensity : ℚ) (scheds : List (List (Nat × Bool))) :
    Outcome (Database V R × List V × List Nat) :=
  let maxNum := maxNumVectors db.dbStorage.maxNumVectorsPerPage inPageVectorDensity
  (Outcome.ofOption (db.prefillInit newVectors ids maxNum)).bind fun st =>
  if db.nThreads = 0 then .fault else
  let step := newVectors.length / db.nThreads / 2
  (Outcome.repeatUntil (fun st => st.newVectors.isEmpty) (PrefillState.round maxNum step) scheds
    st).bind fun st =>
  (Outcome.ofOption st.db.updateCaches).bind fun c =>
  .returned ({ st.db with toCore := c }, st.newVectors, st.ids)

end Database

/-! ## One round -/

namespace PrefillState

variable {dist : DistFunc V R} {maxNum step n bufferSize : Nat} {st st' : PrefillState V R}

/-- What the rounds need of the database and keep of it, its pages apart. -/
structure Workable (dist : DistFunc V R) (maxNum n bufferSize : Nat) (st : PrefillState V R) :
    Prop where
  distFunc : st.db.installed.distFunc = dist
  nThreads : st.db.nThreads = n
  threads_pos : 0 < n
  max_pos : 0 < maxNum
  room : maxNum ≤ bufferSize
  size : st.db.localDistanceBuffersSize = bufferSize
  buffers : st.db.BuffersSized
  nonneg : ∀ t, ∀ e ∈ st.db.localDistanceBuffers t, 0 ≤ e.first
  memory : n * maxNum ≤ st.db.internalBuffer.data.length

/-- `guard` holds of the heap of every worker that lowers the common cut-off in
a round. -/
def PublishesUnder (guard : LocalHeap R → Prop) (maxNum step : Nat) (sched : List (Nat × Bool))
    (st : PrefillState V R) : Prop :=
  Along (st.task maxNum step).batchPrefillWorker.act
    (fun c x => Loop.Publishes c x → guard (c.threads x.1).work) (turnsOf _ sched) st.start

instance (guard : LocalHeap R → Prop) [DecidablePred guard] (maxNum step : Nat)
    (sched : List (Nat × Bool)) (st : PrefillState V R) :
    Decidable (st.PublishesUnder guard maxNum step sched) :=
  inferInstanceAs (Decidable (Along _ _ _ _))

theorem Workable.reads (h : Workable dist maxNum n bufferSize st) (step : Nat) :
    (st.task maxNum step).Reads dist :=
  ⟨h.distFunc, rfl, h.max_pos⟩

/-- What the workers of a round leave. -/
structure Found (pruned : IdTaggedDistance R → Prop) (maxNum bufferSize : Nat)
    (st : PrefillState V R) (heaps : Fin st.db.nThreads → LocalHeap R) : Prop where
  covers : CoversExcept id pruned maxNum ((outputs heaps).flatten : Multiset _)
    (candidates st.db.installed.distFunc st.newVectors)
  few : (outputs heaps).flatten.length ≤ st.db.nThreads * maxNum
  length : ∀ t, (heaps t).heap.length = bufferSize
  nonneg : ∀ t, ∀ e ∈ (heaps t).heap, 0 ≤ e.first

section Submit

variable {pruned : IdTaggedDistance R → Prop} {Q : WithTop R → Prop}
  {guard : LocalHeap R → Prop} {sched : List (Nat × Bool)}

theorem Workable.keeps_start (h : Workable dist maxNum n bufferSize st)
    (pruned : IdTaggedDistance R → Prop) (t : Fin st.db.nThreads) :
    (st.task maxNum step).Keeps pruned bufferSize 0 ⟨st.db.localDistanceBuffers t, 0⟩ where
  valid := by
    have hlen : (st.db.localDistanceBuffers t).length = bufferSize := (h.buffers t).trans h.size
    exact hlen ▸ LocalHeap.valid_empty (hlen.symm ▸ h.room)
  covers := coversExcept_zero _ _
  nonneg := h.nonneg t

/-- The outputs of a round cover all vectors, except for those that the cut-off
excuses. -/
theorem Workable.submit_found (h : Workable dist maxNum n bufferSize st) (hstep : 0 < step)
    (hprune : ∀ b, Q b → ∀ i, b < (toFirst st.db.installed.distFunc st.newVectors i).first →
      pruned (toFirst st.db.installed.distFunc st.newVectors i))
    (hTop : Q ⊤)
    (hpublish : ∀ v w r, v ≤ Multiset.Ico 0 st.newVectors.length →
      (st.task maxNum step).Keeps pruned bufferSize v w → guard w →
      w.top.map (·.first) = some r → Q r)
    (hguard : st.PublishesUnder guard maxNum step sched) :
    (st.submit maxNum step sched).Ensures fun c =>
      st.Found pruned maxNum bufferSize fun t => (c.threads t).work := by
  have : Nonempty (Fin st.db.nThreads) := ⟨⟨0, h.nThreads ▸ h.threads_pos⟩⟩
  have hsound := BatchPrefill.sound (h.reads step) hstep hprune hpublish
  refine (Loop.submit_sound hsound rfl hTop (h.keeps_start pruned) hguard).mono ?_
  rintro c ⟨visited, hsum, hkeeps⟩
  refine ⟨?_, ?_, fun t => (hkeeps t).valid.length, fun t => (hkeeps t).nonneg⟩
  · have hcov := coversExcept_sum Finset.univ fun t _ => (hkeeps t).covers
    have hmap := map_sum (Multiset.mapAddMonoidHom
      (toFirst st.db.installed.distFunc st.newVectors)) visited Finset.univ
    simp only [Multiset.coe_mapAddMonoidHom, hsum] at hmap
    rw [coe_flatten_outputs]
    exact (hmap ▸ hcov :)
  · exact length_flatten_outputs_le fun t =>
      (hkeeps t).valid.length_live.trans_le (hkeeps t).valid.le

/-- The task of a round returns once every worker has had enough turns. -/
theorem Workable.submit_returns (h : Workable dist maxNum n bufferSize st) (hstep : 0 < step)
    (hprune : ∀ b, Q b → ∀ i, b < (toFirst st.db.installed.distFunc st.newVectors i).first →
      pruned (toFirst st.db.installed.distFunc st.newVectors i))
    (hTop : Q ⊤)
    (hpublish : ∀ v w r, v ≤ Multiset.Ico 0 st.newVectors.length →
      (st.task maxNum step).Keeps pruned bufferSize v w → guard w →
      w.top.map (·.first) = some r → Q r)
    (hguard : st.PublishesUnder guard maxNum step sched)
    (hTurns : ∀ t, (st.db.nThreads + 5) * st.newVectors.length + st.db.nThreads <
      turns (fun weakFailure => !weakFailure) t (turnsOf st.db.nThreads sched)) :
    ∃ c, st.submit maxNum step sched = .returned c := by
  refine Loop.submit_returns (BatchPrefill.sound (h.reads step) hstep hprune hpublish) rfl hTop
    (h.keeps_start pruned) hguard fun t => ?_
  rw [Fintype.card_fin]
  exact hTurns t

end Submit

/-- The resize of `internal_buffer` does no harm in a round. -/
def OutputsFit (maxNum step : Nat) (sched : List (Nat × Bool)) (st : PrefillState V R) : Prop :=
  (st.submit maxNum step sched).WhenReturned fun c =>
    Parallel.OutputsFit maxNum st.db.internalBuffer fun t => (c.threads t).work

instance (maxNum step : Nat) (sched : List (Nat × Bool)) (st : PrefillState V R) :
    Decidable (st.OutputsFit maxNum step sched) :=
  inferInstanceAs (Decidable (Outcome.WhenReturned _ _))

/-- The merged outputs are a choice for the page of the round, one of the nearest
vectors if the outputs cover all; and once it is stored, another round can follow. -/
theorem Workable.storeNearest {pruned : IdTaggedDistance R → Prop}
    {heaps : Fin st.db.nThreads → LocalHeap R} (h : Workable dist maxNum n bufferSize st)
    (hfound : st.Found pruned maxNum bufferSize heaps)
    (hmem : .valueInit ∈ (outputs heaps).flatten)
    (hfit : Parallel.OutputsFit maxNum st.db.internalBuffer heaps) :
    ∃ sel maxDist, Chosen dist st.newVectors sel maxDist ∧ sel.length ≤ maxNum ∧
      (maxNum ≠ 1 →
        Covers id maxNum ((outputs heaps).flatten : Multiset _) (candidates dist st.newVectors) →
        IsSmallest id maxNum (sel : Multiset _) (candidates dist st.newVectors)) ∧
      ∀ l, st.load.storePage st.pageIdx (sel.map (·.second)) maxDist = some l →
        ∃ st', st.storeNearest maxNum heaps = some st' ∧ st'.load = l ∧
          st'.pageIdx = st.pageIdx + 1 ∧ Workable dist maxNum n bufferSize st' := by
  have hcov := hfound.covers
  rw [h.distFunc] at hcov
  have hroom : (outputs heaps).flatten.length ≤ st.db.internalBuffer.data.length := by
    refine hfound.few.trans ?_
    rw [h.nThreads]
    exact h.memory
  obtain ⟨merged, last, hmerge, hlast, hchosen⟩ := mergeOutputs_chosen h.max_pos hroom hcov.le
    hmem hfit
  refine ⟨merged.elems.take (min maxNum merged.size), last.first, hchosen, ?_, ?_, ?_⟩
  · rw [List.length_take]
    omega
  · intro hne hcovers
    exact mergeOutputs_smallest hroom (hfit.resolve_left hne) hcovers hmerge
  · intro l hl
    refine ⟨st.next heaps merged l, ?_, rfl, rfl, ⟨h.distFunc, h.nThreads, h.threads_pos,
      h.max_pos, h.room, h.size, fun t => (hfound.length t).trans h.size.symm, hfound.nonneg, ?_⟩⟩
    · unfold PrefillState.storeNearest
      simp only [hmerge, Option.bind_some, hlast, hl, Option.map_some]
    · exact h.memory.trans (length_data_mergeOutputs hroom hmerge)

/-- There is a page for the next vectors. -/
def PageLeft (st : PrefillState V R) : Prop := st.pageIdx < st.db.dbStorage.nPages

instance (st : PrefillState V R) : Decidable st.PageLeft :=
  inferInstanceAs (Decidable (_ < _))

end PrefillState

end Spheres
