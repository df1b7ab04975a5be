import Spheres.Interface.ExactSearch

/-!
# The two ways to fill the distance buffer

With many pages `find_k_nearest` lets the workers fill `dist_to_anchor_buffer`, each its
own range, and sorts the buffer itself; with few pages it calls the single-threaded
function, which sorts if it is told to. Without sorting both leave the same buffer.
-/

namespace Spheres

open Execution Parallel Library Library.Interleaving

variable {V R : Type*} [LinearOrder R]

namespace Execution

/-- `fill_dist_to_anchor_buffer_single_threaded`; `sort` is its last argument. -/
def fillDistToAnchorBuffer (sort : Bool) (dist : V → V → R) (cachedVectors : List V)
    (cachedMaxDists : List (IdTaggedDistance R)) (query : V) : Option (List (IdTaggedDistance R)) :=
  (cachedMaxDists.mapM fun e =>
    (cachedVectors[e.second]?).map fun a => (⟨dist query a, e.second⟩ : IdTaggedDistance R)).map
      fun buffer => if sort then buffer.insertionSort (· ≤ ·) else buffer

theorem fillDistToAnchorBuffer_sorted (dist : V → V → R) (cachedVectors : List V)
    (cachedMaxDists : List (IdTaggedDistance R)) (query : V) :
    fillDistToAnchorBuffer true dist cachedVectors cachedMaxDists query =
      fillDistToAnchorBufferSingleThreaded dist cachedVectors cachedMaxDists query := rfl

/-- Without sorting, the distances stand in page order. -/
theorem fillDistToAnchorBuffer_unsorted {pages : List (Page V R)} {cachedVectors : List V}
    {cachedMaxDists : List (IdTaggedDistance R)}
    (h : Coherent pages cachedVectors cachedMaxDists) (dist : V → V → R) (query : V) :
    fillDistToAnchorBuffer false dist cachedVectors cachedMaxDists query =
      some (anchorDistances dist pages query) := by
  obtain ⟨f, hf, hmap⟩ := h.anchorDistances_eq dist query
  rw [fillDistToAnchorBuffer, ListUpdate.mapM_eq_some_map hf, hmap]
  rfl

end Execution

namespace Database

variable [Zero R]

omit [LinearOrder R] [Zero R] in
theorem fillTask_shares (db : Database V R) (query : V) :
    (db.fillTask query).Shares db.cachedMaxDists.length db.nThreads := ⟨rfl, rfl, rfl⟩

/-- The ranges of the workers are inside the cache, disjoint and cover it. A worker writes
in its own range only, whatever the others have written. Whatever the schedule, the task
leaves the buffer that the single-threaded function leaves without sorting, it does end
where every worker has enough turns, and this buffer is the one that the query sorts. -/
theorem fillTask_agrees (db : Database V R)
    (hCoherent : Coherent db.dbStorage.pages db.cachedVectors db.cachedMaxDists)
    (hThreads : 0 < db.nThreads) (hMany : db.cachedMaxDists.length > db.nThreads * 2) (query : V)
    (sched : List (Fin db.nThreads × Unit)) :
    let T := db.fillTask query
    let n := db.nThreads
    (∀ t : Fin n, T.start t ≤ T.stop t ∧ T.stop t ≤ db.cachedMaxDists.length) ∧
      (∀ t t' : Fin n, t ≠ t' → Disjoint (T.range t) (T.range t')) ∧
      (Finset.univ : Finset (Fin n)).biUnion T.range = Finset.range db.cachedMaxDists.length ∧
      (∀ before c t c',
        run T.act before (FillDistToAnchor.initial n db.resizedDistToAnchorBuffer) = some c →
        step T.act c (t, ()) = some c' → ∀ j ∉ T.range t, c'.shared[j]? = c.shared[j]?) ∧
      ((T.submit sched db.resizedDistToAnchorBuffer).Ensures fun out =>
        Execution.fillDistToAnchorBuffer false db.installed.distFunc db.cachedVectors
          db.cachedMaxDists query = some out) ∧
      ((∀ t, db.cachedMaxDists.length + n < turns (fun _ => true) t sched) →
        ∃ out, T.submit sched db.resizedDistToAnchorBuffer = .returned out) ∧
      db.fillDistToAnchorBuffer query sched =
        (T.submit sched db.resizedDistToAnchorBuffer).bind fun out =>
          .returned (out.insertionSort (· ≤ ·)) := by
  intro T n
  have hshares : T.Shares db.cachedMaxDists.length n := db.fillTask_shares query
  have htarget : ∀ j < db.cachedMaxDists.length, ∃ e, T.target j = some e :=
    fun j hj => FillDistToAnchor.exists_target hCoherent hj
  refine ⟨fun t => ⟨?_, hshares.stop_le t⟩, fun t t' hne => hshares.disjoint hne,
    hshares.biUnion_range hThreads, ?_, ?_, ?_, ?_⟩
  · rw [hshares.stop_eq t.isLt]
    exact FillDistToAnchor.start_le_succ t
  · intro before c t c' hrun hstep j hj
    exact (FillDistToAnchor.Inv.of_run hshares htarget db.length_resized hrun).frame hstep hj
  · refine (FillDistToAnchor.submit_eq hThreads hshares hCoherent sched
      db.length_resized).mono fun out hout => ?_
    rw [Execution.fillDistToAnchorBuffer_unsorted hCoherent, hout]
    rfl
  · exact FillDistToAnchor.submit_returns hshares htarget db.length_resized
  · rw [Database.fillDistToAnchorBuffer, if_pos hMany, if_neg hThreads.ne']

/-- Three pages and one thread. -/
def threePages : Database (Distance.Vec ℚ 1) ℚ :=
  let first := twoPages ⟨0, [(0, .point 1)]⟩ ⟨0, [(1, .point 2)]⟩ 1
  { first with
    dbStorage := { first.dbStorage with
      files := first.dbStorage.files ++ [⟨80, 40, [⟨0, [(2, .point 4)]⟩]⟩] }
    cachedVectors := [.point 1, .point 2, .point 4]
    cachedMaxDists := [⟨0, 0⟩, ⟨0, 1⟩, ⟨0, 2⟩] }

theorem fillTask_agrees_threePages :
    ((threePages.fillTask (.point 5)).submit (List.replicate 5 ((0 : Fin 1), ()))
        threePages.resizedDistToAnchorBuffer).Ensures fun out =>
      Execution.fillDistToAnchorBuffer false threePages.installed.distFunc threePages.cachedVectors
        threePages.cachedMaxDists (.point 5) = some out :=
  (threePages.fillTask_agrees (by decide +kernel) (by decide) (by decide) (.point 5)
    (List.replicate 5 ((0 : Fin 1), ()))).2.2.2.2.1

end Database

end Spheres
