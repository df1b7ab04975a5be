import Spheres.Execution.Insert
import Spheres.Library.StdVector
import Spheres.Storage.AddressSpace

/-!
# Databases

A database is a storage with its caches, the buffers that its operations reuse
and the functions installed for its metric. What is on disk between two
lifetimes is the configuration file and the data files.
-/

namespace Spheres

open Execution Library

variable {V R : Type*}

/-- The turns of a schedule that belong to the threads of a pool of size `n`. -/
def turnsOf {ε : Type*} (n : Nat) (sched : List (Nat × ε)) : List (Fin n × ε) :=
  sched.filterMap fun x => if h : x.1 < n then some (⟨x.1, h⟩, x.2) else none

/-- The functions that the constructor installs in the context. -/
structure Installed (V R : Type*) where
  distFunc : V → V → R
  pruneCheckFunc : R → R → WithTop R → Bool

/-- An open database. `nOutputs` is not kept: every worker resets its count at
the start of a task, and the counts are read right after it. -/
structure Database (V R : Type*) extends Core V R where
  dbConfig : DatabaseConfig
  installed : Installed V R
  nThreads : Nat
  localDistanceBuffersSize : Nat
  localDistanceBuffers : Fin nThreads → List (IdTaggedDistance R)
  internalBuffer : StdVector (IdTaggedDistance R)
  nPruned : Nat

/-- What the tasks of a database reuse from call to call. -/
structure Buffers (n : Nat) (R : Type*) where
  distToAnchorBuffer : List (IdTaggedDistance R)
  localDistanceBuffers : Fin n → List (IdTaggedDistance R)
  internalBuffer : StdVector (IdTaggedDistance R)
  nPruned : Nat

/-- The files of a database that is not open. -/
structure DiskImage (V R : Type*) where
  config : DatabaseConfig
  files : List (DataFile V R)

namespace Database

/-- Every thread has a local buffer of the configured size. -/
def BuffersSized (db : Database V R) : Prop :=
  ∀ t, (db.localDistanceBuffers t).length = db.localDistanceBuffersSize

/-- The same database with other contents of the reused buffers. -/
def refill (db : Database V R) (b : Buffers db.nThreads R) : Database V R :=
  { db with
    distToAnchorBuffer := b.distToAnchorBuffer
    localDistanceBuffers := b.localDistanceBuffers
    internalBuffer := b.internalBuffer
    nPruned := b.nPruned }

/-- The constructor `Database::Database`. -/
def construct [Zero R] [Inhabited V] (installed : SupportedDistanceFunctions → Installed V R)
    (image : DiskImage V R) (nThreads buffersSize : Nat) : Option (Database V R) :=
  (Storage.loadStorage image.config image.files).map fun s =>
    { dbStorage := s
      cachedVectors := List.replicate s.nPages default
      cachedMaxDists := []
      distToAnchorBuffer := []
      dbConfig := image.config
      installed := installed image.config.distanceFunction
      nThreads
      localDistanceBuffersSize := buffersSize
      localDistanceBuffers := fun _ => List.replicate buffersSize .valueInit
      internalBuffer := .reserve .valueInit Defaults.defaultThreadLocalBufferSize
      nPruned := 0 }

/-- `~Database` writes the number of files to the configuration file; the data
files are shared mappings. -/
def close (db : Database V R) : DiskImage V R where
  config := { db.dbConfig with nFiles := db.dbStorage.nFiles }
  files := db.dbStorage.files.map (·.unmap)

/-- `load_database`. -/
def load [Zero R] [Inhabited V] (installed : SupportedDistanceFunctions → Installed V R)
    (image : DiskImage V R) (nThreads buffersSize : Nat) : Option (Database V R) :=
  (construct installed image nThreads buffersSize).bind fun db =>
  (db.toCore.updateCaches).map fun c => { db with toCore := c }

/-- What `create_database` writes before it opens the database. -/
def createImage [Zero R] (pageSize fileSize : Nat) (dtype : SupportedDataType) (dim : Nat)
    (distanceFunction : SupportedDistanceFunctions) : DiskImage V R where
  config := { dtype, distanceFunction, pageSize, fileSize, dim, nFiles := 1 }
  files := (Storage.createStorage pageSize fileSize dtype dim).files.map (·.unmap)

/-- `create_database`. A data file of size 0 is never created, so it cannot be
opened; with pages of size 0 the mapping divides by zero. -/
def create [Zero R] [Inhabited V] (installed : SupportedDistanceFunctions → Installed V R)
    (pageSize fileSize : Nat) (dtype : SupportedDataType) (dim : Nat)
    (distanceFunction : SupportedDistanceFunctions) (nThreads buffersSize : Nat) :
    Option (Database V R) :=
  if fileSize = 0 ∨ pageSize = 0 then none
  else construct installed (createImage pageSize fileSize dtype dim distanceFunction) nThreads
    buffersSize

/-! ## New databases -/

/-- What `create_database` returns. -/
structure Fresh [Zero R] (installed : SupportedDistanceFunctions → Installed V R)
    (pageSize fileSize : Nat) (dtype : SupportedDataType) (dim : Nat)
    (distanceFunction : SupportedDistanceFunctions) (nThreads buffersSize : Nat)
    (db : Database V R) : Prop where
  grown : db.dbStorage.Grown pageSize fileSize dtype dim
  pages : db.dbStorage.pages = List.replicate (fileSize / pageSize) .zeroed
  cachedMaxDists : db.cachedMaxDists = []
  distToAnchorBuffer : db.distToAnchorBuffer = []
  config : db.dbConfig = db.dbStorage.config dtype distanceFunction
  installed : db.installed = installed distanceFunction
  nThreads : db.nThreads = nThreads
  size : db.localDistanceBuffersSize = buffersSize
  buffers : ∀ t, db.localDistanceBuffers t = List.replicate buffersSize .valueInit

variable [Zero R] [Inhabited V] {installed : SupportedDistanceFunctions → Installed V R}
  {pageSize fileSize dim nThreads buffersSize : Nat} {dtype : SupportedDataType}
  {distanceFunction : SupportedDistanceFunctions} {db : Database V R}

/-- Both sizes are positive, and the database is opened from the files. -/
theorem construct_of_create
    (h : create installed pageSize fileSize dtype dim distanceFunction nThreads buffersSize =
      some db) :
    0 < fileSize ∧ 0 < pageSize ∧ construct installed
      (createImage pageSize fileSize dtype dim distanceFunction) nThreads buffersSize = some db := by
  unfold create at h
  split at h
  · cases h
  · rename_i hsizes
    obtain ⟨hfs, hps⟩ := not_or.mp hsizes
    exact ⟨Nat.pos_of_ne_zero hfs, Nat.pos_of_ne_zero hps, h⟩

/-- With files of at least one page. -/
theorem create_fresh_of_le (hle : pageSize ≤ fileSize)
    (h : create installed pageSize fileSize dtype dim distanceFunction nThreads buffersSize =
      some db) :
    db.Fresh installed pageSize fileSize dtype dim distanceFunction nThreads buffersSize := by
  obtain ⟨-, h0, h⟩ := construct_of_create h
  have hgrown : (Storage.createStorage pageSize fileSize dtype dim : Storage V R).Grown pageSize
      fileSize dtype dim := Storage.grown_createStorage h0 hle
  have hpages : (Storage.createStorage pageSize fileSize dtype dim : Storage V R).pages =
      List.replicate (fileSize / pageSize) .zeroed := by
    rw [Storage.createStorage, Storage.pages_createStorageFile]
    rfl
  rw [construct] at h
  obtain ⟨s, hload, rfl⟩ := Option.map_eq_some_iff.mp h
  obtain rfl := Option.some.inj ((hgrown.load distanceFunction).symm.trans hload)
  have hcount : (Storage.createStorage pageSize fileSize dtype dim : Storage V R).nFiles * fileSize /
      pageSize = (Storage.createStorage pageSize fileSize dtype dim : Storage V R).nPages := by
    simp [Storage.createStorage, Storage.createStorageFile]
  refine ⟨?_, hpages, rfl, rfl, rfl, rfl, rfl, rfl, fun _ => rfl⟩
  rw [hcount]
  exact hgrown

theorem create_fresh (hDvd : pageSize ∣ fileSize)
    (h : create installed pageSize fileSize dtype dim distanceFunction nThreads buffersSize =
      some db) :
    db.Fresh installed pageSize fileSize dtype dim distanceFunction nThreads buffersSize :=
  create_fresh_of_le (Nat.le_of_dvd (construct_of_create h).1 hDvd) h

/-- A database can be created when a file has room for a page. -/
theorem exists_create (installed : SupportedDistanceFunctions → Installed V R) (h0 : 0 < pageSize)
    (hle : pageSize ≤ fileSize) (dtype : SupportedDataType) (dim : Nat)
    (distanceFunction : SupportedDistanceFunctions) (nThreads buffersSize : Nat) :
    ∃ db, create installed pageSize fileSize dtype dim distanceFunction nThreads buffersSize =
      some db := by
  have hgrown : (Storage.createStorage pageSize fileSize dtype dim : Storage V R).Grown pageSize
      fileSize dtype dim := Storage.grown_createStorage h0 hle
  have hload : Storage.loadStorage
      (createImage pageSize fileSize dtype dim distanceFunction : DiskImage V R).config
      (createImage pageSize fileSize dtype dim distanceFunction : DiskImage V R).files = _ :=
    hgrown.load distanceFunction
  rw [create, if_neg (by omega), construct, hload]
  exact ⟨_, rfl⟩

omit [Inhabited V] in
/-- The caches of a new database agree with its pages, which are empty. -/
theorem Fresh.coherent
    (h : db.Fresh installed pageSize fileSize dtype dim distanceFunction nThreads buffersSize) :
    Coherent db.dbStorage.pages db.cachedVectors db.cachedMaxDists := by
  have hempty : ∀ (i : Nat) (p : Page V R), db.dbStorage.pages[i]? = some p →
      p.anchor = none := by
    intro i p hp
    have hmem := List.mem_of_getElem? hp
    rw [h.pages] at hmem
    obtain ⟨-, rfl⟩ := List.mem_replicate.mp hmem
    rfl
  constructor
  · intro i p a hp ha
    rw [hempty i p hp] at ha
    cases ha
  · rw [h.cachedMaxDists]
    refine (List.eq_nil_iff_forall_not_mem.mpr fun e he => ?_).symm
    obtain ⟨p, a, hp, ha, -⟩ := mem_perPage.mp he
    rw [hempty _ p hp] at ha
    cases ha

end Database

end Spheres
