import Spheres.Execution.InsertExact
import Spheres.Interface.CacheCoherence

/-!
# The radii of the pages over whole runs

Pruning relies on every page being within its radius. `insert_a_vector` works
with whatever the distance buffer holds: the distances of the last query, or of
the last displaced victim, or nothing. It keeps the radii exactly as long as
the vector lies within the radius of the page that the buffer leads to
(`KeepsRadii`), and then they hold in every database of the run.
-/

namespace Spheres

open Execution Library

variable {V R : Type*} [Zero R] [LinearOrder R] [Inhabited V]

namespace Database

/-- The vector fits where an insertion appends it, a bulk load runs with one
thread on new pages, and none of its pages is filled beyond its capacity. -/
def KeepsRadii (dist : V → V → R) (db : Database V R) : Call V → Prop
  | .insertAVector _ newVector density =>
    InsertFits dist db.dbStorage.maxNumVectorsPerPage
      (maxNumVectors db.dbStorage.maxNumVectorsPerPage density) db.dbStorage.pages
      db.distToAnchorBuffer newVector
  | .request _ => True
  | .batchPrefill newVectors _ density =>
    (∀ p ∈ db.dbStorage.pages, p = .zeroed) ∧
      min (maxNumVectors db.dbStorage.maxNumVectorsPerPage density) newVectors.length ≤
        db.dbStorage.maxNumVectorsPerPage
  | .batchPrefillParallel .. => False
  | .reopen .. => True

instance [DecidableEq V] (dist : V → V → R) (db : Database V R) :
    (call : Call V) → Decidable (db.KeepsRadii dist call)
  | .insertAVector .. => inferInstanceAs (Decidable (InsertFits ..))
  | .request _ => isTrue trivial
  | .batchPrefill .. => inferInstanceAs (Decidable (_ ∧ _))
  | .batchPrefillParallel .. => isFalse id
  | .reopen .. => isTrue trivial

/-- All pages are exact, and no entry of the distance buffer is negative. -/
structure Bounding (dist : DistFunc V R) (db : Database V R) : Prop where
  distFunc : db.installed.distFunc = dist
  capacity : 2 ≤ db.dbStorage.maxNumVectorsPerPage
  pages : ∀ p ∈ db.dbStorage.pages, ExactPage dist db.dbStorage.maxNumVectorsPerPage p
  buffer : ∀ e ∈ db.distToAnchorBuffer, 0 ≤ e.first

section Bounding

variable {installed : SupportedDistanceFunctions → Installed V R}
  {pageSize fileSize dim nThreads buffersSize : Nat} {dtype : SupportedDataType}
  {distanceFunction : SupportedDistanceFunctions} {db after : Database V R} {dist : DistFunc V R}

omit [Inhabited V] in
theorem Bounding.ready (h : db.Bounding dist) (hsane : db.toCore.Sane) : db.toCore.Ready dist where
  uniform := hsane.uniform
  nonempty := hsane.nonempty
  coherent := hsane.coherent
  attained p hp := (h.pages p hp).attained
  buffer e he := ⟨h.buffer e he, hsane.buffer e he⟩

theorem Bounding.insertAVector (h : db.Bounding dist) (hsane : db.toCore.Sane) {density : ℚ}
    {newId n : Nat} {newVector : V}
    (hfits : db.KeepsRadii dist (.insertAVector newId newVector density))
    (hrun : ∀ fuel, n ≤ fuel → db.insertAVector density fuel newId newVector = some after) :
    after.Bounding dist := by
  obtain ⟨c, m, hinsert, hready, hshape, hexact⟩ :=
    (h.ready hsane).insert_fits h.pages h.capacity newId hfits
  have hafter := hrun (max n m) (Nat.le_max_left n m)
  rw [Database.insertAVector, h.distFunc, hinsert _ (Nat.le_max_right n m), Option.map_some] at hafter
  obtain rfl := Option.some.inj hafter
  refine ⟨h.distFunc, h.capacity.trans_eq hshape.capacity.symm, ?_, fun e he => (hready.buffer e he).1⟩
  show ∀ p ∈ c.dbStorage.pages, ExactPage dist c.dbStorage.maxNumVectorsPerPage p
  rw [hshape.capacity]
  exact hexact

omit [Inhabited V] in
theorem Bounding.answer (h : db.Bounding dist) (hsane : db.toCore.Sane) {req : Request V}
    {result : List (Option (IdTaggedDistance R))}
    (hrun : db.answer req = .returned (after, result)) : after.Bounding dist := by
  obtain ⟨b, hb, hbuf⟩ := answer_refill hsane.coherent hrun
  obtain rfl : after = db.refill b := hb
  refine ⟨h.distFunc, h.capacity, h.pages, fun e he => ?_⟩
  rcases hbuf with hbuf | ⟨query, hbuf⟩
  · exact h.buffer e (hbuf ▸ he)
  · replace he : e ∈ db.queryOrder query := hbuf ▸ he
    rw [queryOrder, h.distFunc] at he
    exact (anchorDistances_valid db.dbStorage.pages query e he).1

theorem Bounding.batchPrefill (h : db.Bounding dist) (hsane : db.toCore.Sane) {newVectors : List V}
    {ids : List Nat} {density : ℚ} {left : List V × List Nat}
    (hok : db.KeepsRadii dist (.batchPrefill newVectors ids density))
    (hrun : db.batchPrefill newVectors ids density = some (after, left)) :
    after.Bounding dist := by
  obtain ⟨hnew, hbound⟩ := hok
  obtain ⟨l, hload, hrun⟩ := Option.bind_eq_some_iff.mp hrun
  obtain ⟨c, hcaches, heq⟩ := Option.map_eq_some_iff.mp hrun
  obtain rfl : ({ db with toCore := c } : Database V R) = after := congrArg Prod.fst heq
  rw [h.distFunc] at hload
  obtain ⟨m, hstoring, hshape, hdone⟩ := Load.batchPrefillSingleThreaded_storing
    (l := ⟨db.dbStorage, newVectors, ids⟩) hsane.uniform
    (List.eq_replicate_iff.mpr ⟨rfl, hnew⟩) hbound hload
  obtain ⟨huniform, -, hpages⟩ := hstoring.finished hdone
  obtain ⟨cached, hcaches', -⟩ := Core.updateCaches_eq
    (c := { db.toCore with dbStorage := l.dbStorage }) huniform
  obtain rfl := Option.some.inj (hcaches'.symm.trans hcaches)
  have hcapacity := hshape.capacity
  refine ⟨h.distFunc, h.capacity.trans_eq hcapacity.symm, fun p hp => ?_, h.buffer⟩
  obtain ⟨hcount, hradius, hempty⟩ := hpages p hp
  exact ⟨hcount.trans_eq hcapacity.symm, hradius, hempty⟩

/-- A call that keeps the radii. -/
theorem Bounding.returns (h : db.Bounding dist)
    (hsteady : db.Steady installed pageSize fileSize dtype dim distanceFunction)
    (h0 : 0 < pageSize) {call : Call V} (hok : db.KeepsRadii dist call)
    (hreturn : db.Returns installed call after) : after.Bounding dist := by
  cases call with
  | insertAVector newId newVector density =>
    obtain ⟨n, hrun⟩ := hreturn
    exact h.insertAVector hsteady.sane hok hrun
  | request req =>
    obtain ⟨result, hrun⟩ := hreturn
    exact h.answer hsteady.sane hrun
  | batchPrefill newVectors ids density =>
    obtain ⟨left, hrun⟩ := hreturn
    exact h.batchPrefill hsteady.sane hok hrun
  | batchPrefillParallel newVectors ids density scheds => exact hok.elim
  | reopen nThreads buffersSize =>
    obtain ⟨after', hrun, hstorage, hbuf, hsteady'⟩ :=
      hsteady.load_returns (hsteady.count_of_load h0 hreturn) nThreads buffersSize
    obtain rfl : after' = after := Option.some.inj (hrun.symm.trans hreturn)
    refine ⟨?_, hstorage ▸ h.capacity, hstorage ▸ h.pages, ?_⟩
    · rw [hsteady'.installed, ← hsteady.installed, h.distFunc]
    · rw [hbuf]
      simp

/-- In every run of calls that keep the radii, every page is within its capacity
and its radius bounds the distance of each of its vectors to its anchor. -/
theorem run_pages_bounded
    (hCreate : create installed pageSize fileSize dtype dim distanceFunction nThreads buffersSize =
      some db)
    (hDvd : pageSize ∣ fileSize) (hDist : (installed distanceFunction).distFunc = dist)
    (hCapacity : 2 ≤ db.dbStorage.maxNumVectorsPerPage)
    (hRun : Run installed (fun db call _ => db.KeepsRadii dist call) db after) :
    ∀ p ∈ after.dbStorage.pages,
      p.nVectors ≤ after.dbStorage.maxNumVectorsPerPage ∧ p.Bounded dist := by
  have hpos := (construct_of_create hCreate).2.1
  have hfresh := create_fresh hDvd hCreate
  have hstart : db.Bounding dist := by
    refine ⟨by rw [hfresh.installed, hDist], hCapacity, fun p hp => ?_, ?_⟩
    · rw [hfresh.pages] at hp
      obtain ⟨-, rfl⟩ := List.mem_replicate.mp hp
      exact exactPage_zeroed _
    · rw [hfresh.distToAnchorBuffer]
      simp
  obtain ⟨-, hafter⟩ := hRun.invariant
    (fun db => db.Steady installed pageSize fileSize dtype dim distanceFunction ∧ db.Bounding dist)
    (fun db call after hdb hok hreturn => ⟨hdb.1.returns hpos hreturn,
      hdb.2.returns hdb.1 hpos hok hreturn⟩) ⟨hfresh.steady, hstart⟩
  intro p hp
  exact ⟨(hafter.pages p hp).capacity, (hafter.pages p hp).radius.bounded⟩

end Bounding

end Database

/-! ## Two insertions -/

section Example

open Distance

/-- The same vector once more. -/
def sameVectors : Database (Vec ℚ 1) ℚ := (oneVector.insertAVector 1 1 1 (.point 5)).get rfl

theorem Database.run_pages_bounded_sameVectors :
    sameVectors.dbStorage.pages ≠ [] ∧
      ∀ p ∈ sameVectors.dbStorage.pages,
        p.nVectors ≤ sameVectors.dbStorage.maxNumVectorsPerPage ∧ p.Bounded (squaredL2 ℚ 1) :=
  ⟨by decide +kernel,
    Database.run_pages_bounded (Option.some_get _).symm (by decide) rfl (by decide +kernel)
      (.tail (.single ⟨.insertAVector 0 (.point 5) 1, by decide +kernel,
          .of_nil (by decide +kernel) (Option.some_get _).symm⟩)
        ⟨.insertAVector 1 (.point 5) 1, by decide +kernel,
          .of_nil (by decide +kernel) (Option.some_get _).symm⟩)⟩

/-- Another vector. -/
def twoVectors : Database (Vec ℚ 1) ℚ := (oneVector.insertAVector 1 1 1 (.point 9)).get rfl

/-- No query has filled the distance buffer, so the second vector is appended to
page 0 and the radius of the page stays zero. -/
theorem Database.two_insertions_unbounded :
    newDatabase 52 156 1 = some oneThread ∧ 52 ∣ 156 ∧
      oneThread.dbStorage.maxNumVectorsPerPage = 3 ∧
      Database.Run (fun _ => squaredL2Installed ℚ 1)
        (fun _ call _ => call = .insertAVector 0 (.point 5) 1 ∨ call = .insertAVector 1 (.point 9) 1)
        oneThread twoVectors ∧
      ¬ ∀ p ∈ twoVectors.dbStorage.pages,
        p.nVectors ≤ twoVectors.dbStorage.maxNumVectorsPerPage ∧ p.Bounded (squaredL2 ℚ 1) := by
  refine ⟨(Option.some_get _).symm, by decide, by decide +kernel, ?_, by decide +kernel⟩
  exact .tail
    (.single ⟨_, Or.inl rfl, .of_nil (by decide +kernel) (Option.some_get _).symm⟩)
    ⟨_, Or.inr rfl, .of_nil (by decide +kernel) (Option.some_get _).symm⟩

end Example

end Spheres
