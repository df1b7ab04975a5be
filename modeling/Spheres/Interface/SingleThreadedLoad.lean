import Spheres.Execution.Placement
import Spheres.Interface.ParallelLoad

/-!
# A bulk load with one thread on a new database

The files that are created hold all pages of the load, and every page is filled
with the first vector that is left and the ones nearest to it.
-/

namespace Spheres.Database

open Execution Library

variable {V R : Type*} [Zero R] [LinearOrder R] [Inhabited V]
  {installed : SupportedDistanceFunctions → Installed V R}
  {pageSize fileSize dim nThreads buffersSize : Nat} {dtype : SupportedDataType}
  {distanceFunction : SupportedDistanceFunctions} {db : Database V R} {dist : DistFunc V R}
  {newVectors : List V} {ids : List Nat}

omit [LinearOrder R] [Inhabited V] in
/-- The pages of a new database are those of one file. -/
theorem Fresh.firstFile
    (h : db.Fresh installed pageSize fileSize dtype dim distanceFunction nThreads buffersSize)
    (hDvd : pageSize ∣ fileSize) :
    db.dbStorage.pages =
        List.replicate (db.dbStorage.fileSize / db.dbStorage.pageSize) .zeroed ∧
      db.dbStorage.pageSize ∣ db.dbStorage.fileSize := by
  rw [h.pages, h.grown.layout.fileSize, h.grown.layout.pageSize]
  exact ⟨rfl, hDvd⟩

end Spheres.Database
