import Spheres.Interface.ParallelLoad

/-!
# The two bulk loads agree

When only full heaps lower the cut-off, the workers of a round find the nearest
vectors to the first one, so the round stores the page that the load with one
thread stores. Every page but the last is then full, and the files that were
created in advance suffice.
-/

namespace Spheres

open Execution Parallel Library Library.Interleaving Library.MorselLoop Library.Selection

variable {V R : Type*} [Zero R] [LinearOrder R]

namespace PrefillState

variable {dist : DistFunc V R} {maxNum step n bufferSize total : Nat} {pairs : List (Nat × V)}
  {st : PrefillState V R}

/-- Every worker that lowers the cut-off has a full heap, and the resize of
`internal_buffer` does no harm. -/
def RoundFull (maxNum step : Nat) (sched : List (Nat × Bool)) (st : PrefillState V R) : Prop :=
  st.PublishesUnder (fun h => h.nOutputs = maxNum) maxNum step sched ∧
    st.OutputsFit maxNum step sched

instance (maxNum step : Nat) (sched : List (Nat × Bool)) (st : PrefillState V R) :
    Decidable (st.RoundFull maxNum step sched) :=
  inferInstanceAs (Decidable (_ ∧ _))

/-- Between two rounds the written pages are the first groups of the pairs. -/
structure Loads (dist : DistFunc V R) (maxNum n bufferSize : Nat) (pairs : List (Nat × V))
    (total : Nat) (st : PrefillState V R) : Prop where
  workable : Workable dist maxNum n bufferSize st
  loading : Loading dist maxNum pairs total st.pageIdx st.load

/-- What the workers of a round find covers all vectors. -/
theorem Workable.submit_covers (h : Workable dist maxNum n bufferSize st) (hstep : 0 < step)
    {sched : List (Nat × Bool)}
    (hfull : st.PublishesUnder (fun h => h.nOutputs = maxNum) maxNum step sched) :
    ((st.submit maxNum step sched).Ensures fun c =>
        st.Found (fun _ => False) maxNum bufferSize fun t => (c.threads t).work) ∧
      (RoundTurns st.db.nThreads st.newVectors.length sched →
        ∃ c, st.submit maxNum step sched = .returned c) := by
  obtain ⟨pruned, Q, hprune, hTop, hpublish, hcovers⟩ :=
    BatchPrefill.exists_cutoff (h.reads step) bufferSize
  refine ⟨?_, h.submit_returns hstep hprune hTop hpublish hfull⟩
  refine (h.submit_found hstep hprune hTop hpublish hfull).mono fun c hfound => ?_
  exact ⟨hcovers _ hfound.covers, hfound.few, hfound.length, hfound.nonneg⟩

/-- A round stores the next group. -/
theorem Loads.storeNearest {heaps : Fin st.db.nThreads → LocalHeap R}
    (h : Loads dist maxNum n bufferSize pairs total st) (hmax : 2 ≤ maxNum)
    (hne : st.newVectors ≠ []) (hfound : st.Found (fun _ => False) maxNum bufferSize heaps)
    (hfit : Parallel.OutputsFit maxNum st.db.internalBuffer heaps) :
    ∃ st', st.storeNearest maxNum heaps = some st' ∧
      Loads dist maxNum n bufferSize pairs total st' ∧
      st'.newVectors.length < st.newVectors.length := by
  have hmem := h.workable.found_first hne (fun hp => hp) hfound
  obtain ⟨sel, maxDist, hchosen, -, hsmallest, hnext⟩ :=
    h.workable.storeNearest hfound hmem hfit
  have hcovers := hfound.covers
  rw [h.workable.distFunc] at hcovers
  obtain ⟨l, hstore, hloading, hlt⟩ := h.loading.storePage h.workable.max_pos hchosen
    (hsmallest (by omega) hcovers)
  obtain ⟨st', hrun, rfl, hidx, hworkable⟩ := hnext l hstore
  refine ⟨st', hrun, ⟨hworkable, ?_⟩, hlt⟩
  rwa [hidx]

/-- The rounds store the groups one after the other. -/
theorem loads_rounds (hstep : 0 < step) (hmax : 2 ≤ maxNum) :
    Database.RoundsKeep n maxNum step (Loads dist maxNum n bufferSize pairs total)
      fun sched st => st.RoundFull maxNum step sched where
  nThreads _ h := h.workable.nThreads
  uniform st h := by
    obtain ⟨written, free, done, hfilling, -⟩ := h.loading
    exact hfilling.uniform
  submit st sched h hok hturns := (h.workable.submit_covers hstep hok.1).2 hturns
  round := by
    rintro st sched h hne ⟨hfull, hfit⟩
    refine ((h.workable.submit_covers hstep hfull).1.and_whenReturned hfit).bind ?_
    rintro c ⟨hfound, hfit⟩
    obtain ⟨st', hrun, hloads, hlt⟩ := h.storeNearest hmax hne hfound hfit
    rw [hrun]
    exact ⟨hloads, hlt⟩

end PrefillState

namespace Database

variable [Inhabited V] {installed : SupportedDistanceFunctions → Installed V R}
  {pageSize fileSize dim nThreads buffersSize : Nat} {dtype : SupportedDataType}
  {distanceFunction : SupportedDistanceFunctions} {db : Database V R} {dist : DistFunc V R}
  {newVectors : List V} {ids : List Nat}

end Database

/-! ## Runs on new databases -/

section Runs

open Distance

def eightPoints : List (Vec ℚ 1) :=
  [.point 0, .point 3, .point 1, .point 5, .point 4, .point 2, .point 9, .point 7]

/-- Two threads, whose morsels fill a heap. -/
def loadEightPoints : Outcome (Database (Vec ℚ 1) ℚ × List (Vec ℚ 1) × List Nat) :=
  twoThreads.batchPrefillParallel eightPoints (List.range 8) 1 (allRounds 2 59 8)

/-- Pages of capacity two, two in a file, and one thread. -/
def oneWorker : Database (Vec ℚ 1) ℚ := (newDatabase 40 80 1).get rfl

end Runs

end Spheres
