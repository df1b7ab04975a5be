import Spheres.Interface.Calls
import Spheres.Interface.ParallelLoad

/-!
# The caches over whole runs

Every call that returns leaves caches that agree with the pages
(`run_coherent`), and a database that is closed and loaded again is the same
database (`run_load_close`). With files smaller than a page there is no page at
all, and a call that needs one does not return; such a database is `Barren`.
-/

namespace Spheres

open Execution Library

variable {V R : Type*} [Zero R] [LinearOrder R] [Inhabited V]

/-! ## Storages without pages -/

/-- A storage with files smaller than a page. -/
structure Storage.NoPages (s : Storage V R) : Prop where
  width : s.fileSize / s.pageSize = 0
  files : ∀ file ∈ s.files, file.filesize = s.fileSize
  pages : s.pages = []
  nPages : s.nPages = 0

namespace Execution

section NoPages

variable {s s' : Storage V R}

omit [Zero R] [LinearOrder R] [Inhabited V] in
theorem page?_of_pages_nil (h : s.pages = []) (fileIndex pageIndex : Nat) :
    s.page? fileIndex pageIndex = none := by
  rw [Storage.page?]
  cases hfile : s.files[fileIndex]? with
  | none => rfl
  | some file =>
    have hpages := List.flatten_eq_nil_iff.mp h file.pages
      (List.mem_map_of_mem (List.mem_of_getElem? hfile))
    rw [Option.bind_some, hpages, List.getElem?_nil]

omit [Zero R] [LinearOrder R] [Inhabited V] in
theorem modifyPageAt_of_pages_nil (h : s.pages = []) (i : Nat) (g : Page V R → Page V R) :
    s.modifyPageAt i g = none := by
  rw [Storage.modifyPageAt, Storage.modifyPage, page?_of_pages_nil h, Option.map_none]

omit [Zero R] [LinearOrder R] [Inhabited V] in
theorem Load.storePage_of_pages_nil {l : Load V R} (h : l.dbStorage.pages = []) (pageIdx : Nat)
    (indices : List Nat) (maxDist : R) : l.storePage pageIdx indices maxDist = none := by
  rw [storePage]
  cases indices with
  | nil => exact congrArg (Option.map _) (modifyPageAt_of_pages_nil h _ _)
  | cons i rest =>
    have hfirst : l.appendFrom pageIdx l.dbStorage i = none := by
      rw [appendFrom_eq, Option.bind_eq_none_iff]
      exact fun slot _ => modifyPageAt_of_pages_nil h _ _
    rw [List.foldlM_cons, hfirst]
    rfl

omit [LinearOrder R] [Inhabited V] in
theorem NoPages.prepareFiles {maxNum nIds : Nat} (h : s.NoPages)
    (hrun : prepareFiles maxNum nIds s = some s') :
    s'.NoPages ∧ s'.pageSize = s.pageSize ∧ s'.fileSize = s.fileSize := by
  unfold Execution.prepareFiles at hrun
  split at hrun
  · cases hrun
  · obtain rfl := Option.some.inj hrun
    generalize nIds / (maxNum * s.fileSize / s.pageSize) = n
    induction n with
    | zero => exact ⟨h, rfl, rfl⟩
    | succ n ih =>
      obtain ⟨ih, hpage, hfile⟩ := ih
      rw [Function.iterate_succ_apply']
      refine ⟨⟨ih.width, ?_, ?_, ?_⟩, hpage, hfile⟩
      · intro file hfile
        rcases List.mem_append.mp hfile with hfile | hfile
        · exact ih.files file hfile
        · obtain rfl := List.mem_singleton.mp hfile
          rfl
      · rw [Storage.pages_createStorageFile, ih.pages, ih.width, List.replicate_zero,
          List.append_nil]
      · show _ + _ = 0
        rw [ih.nPages, ih.width]

omit [Inhabited V] in
/-- Without pages nothing can be loaded. -/
theorem Load.prefillPages_of_pages_nil {dist : V → V → R} {maxNum fuel pageIdx : Nat}
    {l l' : Load V R} (h : l.dbStorage.pages = [])
    (hrun : l.prefillPages dist maxNum fuel pageIdx = some l') : l' = l := by
  cases fuel with
  | zero =>
    rw [prefillPages] at hrun
    split at hrun
    · exact (Option.some.inj hrun).symm
    · cases hrun
  | succ fuel =>
    rw [prefillPages] at hrun
    split at hrun
    · exact (Option.some.inj hrun).symm
    · obtain ⟨l₁, hpage, -⟩ := Option.bind_eq_some_iff.mp hrun
      obtain ⟨nNearest, -, hstore⟩ := Option.bind_eq_some_iff.mp hpage
      rw [storePage_of_pages_nil h] at hstore
      cases hstore

omit [Zero R] [LinearOrder R] in
theorem Core.updateCaches_of_nPages_zero {c c' : Core V R} (h : c.dbStorage.nPages = 0)
    (hrun : c.updateCaches = some c') :
    c'.dbStorage = c.dbStorage ∧ c'.cachedMaxDists = [] ∧
      c'.distToAnchorBuffer = c.distToAnchorBuffer := by
  obtain ⟨cached, -, hrun⟩ := Option.bind_eq_some_iff.mp hrun
  obtain ⟨radii, hradii, rfl⟩ := Option.map_eq_some_iff.mp hrun
  refine ⟨rfl, ?_, rfl⟩
  simp only [updateCachedMaxDistSingleThreaded, h, List.range_zero] at hradii
  exact (Option.some.inj hradii).symm

end NoPages

end Execution

/-! ## Databases without pages -/

namespace Database

/-- A database with files smaller than a page: nothing is stored, and there is
nothing in the caches or in the distance buffer. -/
structure Barren (db : Database V R) : Prop where
  storage : db.dbStorage.NoPages
  pageSize : db.dbConfig.pageSize = db.dbStorage.pageSize
  fileSize : db.dbConfig.fileSize = db.dbStorage.fileSize
  cachedMaxDists : db.cachedMaxDists = []
  distToAnchorBuffer : db.distToAnchorBuffer = []

section Barren

variable {installed : SupportedDistanceFunctions → Installed V R}
  {pageSize fileSize dim nThreads buffersSize : Nat} {dtype : SupportedDataType}
  {distanceFunction : SupportedDistanceFunctions} {db after : Database V R}

omit [Zero R] [LinearOrder R] [Inhabited V] in
theorem Barren.coherent (h : db.Barren) :
    Coherent db.dbStorage.pages db.cachedVectors db.cachedMaxDists := by
  rw [h.storage.pages, h.cachedMaxDists]
  refine ⟨fun i p a hp _ => ?_, rfl⟩
  cases (List.getElem?_nil).symm.trans hp

omit [LinearOrder R] in
/-- What is opened from files smaller than a page has no pages. -/
theorem construct_of_small {image : DiskImage V R}
    (hwidth : image.config.fileSize / image.config.pageSize = 0)
    (hfiles : ∀ file ∈ image.files, file.filesize = image.config.fileSize)
    (h : construct installed image nThreads buffersSize = some db) :
    db.dbStorage.pages = [] ∧ (db.dbStorage.nPages = 0 → db.Barren) := by
  obtain ⟨s, hload, rfl⟩ := Option.map_eq_some_iff.mp h
  unfold Storage.loadStorage at hload
  split at hload
  · obtain rfl := Option.some.inj hload
    have hmapped : ∀ file ∈ (Storage.mapStorage image.config image.files).files,
        file.filesize = image.config.fileSize ∧ file.pages = [] := by
      intro file hfile
      obtain ⟨disk, hdisk, rfl⟩ := List.mem_map.mp hfile
      have hsize := hfiles disk (List.mem_of_mem_take hdisk)
      refine ⟨hsize, ?_⟩
      show (List.range (disk.filesize / image.config.pageSize)).map _ = []
      rw [hsize, hwidth, List.range_zero, List.map_nil]
    have hpages : (Storage.mapStorage image.config image.files).pages = [] := by
      refine List.flatten_eq_nil_iff.mpr fun row hrow => ?_
      obtain ⟨file, hfile, rfl⟩ := List.mem_map.mp hrow
      exact (hmapped file hfile).2
    refine ⟨hpages, fun hcount => ⟨⟨hwidth, fun file hfile => (hmapped file hfile).1, hpages,
      hcount⟩, rfl, rfl, rfl, rfl⟩⟩
  · cases hload

omit [LinearOrder R] in
theorem create_barren (hlt : fileSize < pageSize)
    (h : create installed pageSize fileSize dtype dim distanceFunction nThreads buffersSize =
      some db) : db.Barren := by
  obtain ⟨-, -, h⟩ := construct_of_create h
  have hwidth : fileSize / pageSize = 0 := Nat.div_eq_of_lt hlt
  refine (construct_of_small hwidth ?_ h).2 ?_
  · intro file hfile
    obtain rfl := List.mem_singleton.mp hfile
    rfl
  · obtain ⟨s, hload, rfl⟩ := Option.map_eq_some_iff.mp h
    unfold Storage.loadStorage at hload
    split at hload
    · obtain rfl := Option.some.inj hload
      show 1 * fileSize / pageSize = 0
      rw [Nat.one_mul, hwidth]
    · cases hload

omit [Zero R] [LinearOrder R] in
/-- Caches rebuilt without pages stay empty. -/
theorem Barren.of_updateCaches {d : Database V R} {c : Core V R} (hnone : d.dbStorage.NoPages)
    (hpage : d.dbConfig.pageSize = d.dbStorage.pageSize)
    (hfile : d.dbConfig.fileSize = d.dbStorage.fileSize) (hbuf : d.distToAnchorBuffer = [])
    (hrun : d.toCore.updateCaches = some c) : ({ d with toCore := c } : Database V R).Barren := by
  obtain ⟨hstorage, hmax, hbuf'⟩ := Core.updateCaches_of_nPages_zero hnone.nPages hrun
  exact ⟨hstorage ▸ hnone, hpage.trans (congrArg Storage.pageSize hstorage.symm),
    hfile.trans (congrArg Storage.fileSize hstorage.symm), hmax, hbuf'.trans hbuf⟩

/-- Without pages there is no room for a vector. -/
theorem Barren.not_insertAVector (h : db.Barren) (density : ℚ) (fuel newId : Nat) (newVector : V) :
    db.insertAVector density fuel newId newVector = none := by
  cases fuel with
  | zero => rfl
  | succ fuel =>
    rw [insertAVector, Execution.insertAVector, h.distToAnchorBuffer, List.head?_nil]
    simp only [appendNewVector, modifyPageAt_of_pages_nil h.storage.pages, Option.bind_none,
      Option.map_none]

omit [Inhabited V] in
theorem Barren.answer (h : db.Barren) {req : Request V}
    {result : List (Option (IdTaggedDistance R))}
    (hrun : db.answer req = .returned (after, result)) : after.Barren := by
  obtain ⟨b, hb, hbuf⟩ := answer_refill h.coherent hrun
  obtain rfl : after = db.refill b := hb
  refine ⟨h.storage, h.pageSize, h.fileSize, h.cachedMaxDists, ?_⟩
  rcases hbuf with hbuf | ⟨query, hbuf⟩
  · exact hbuf.trans h.distToAnchorBuffer
  · refine hbuf.trans (List.eq_nil_of_length_eq_zero ?_)
    rw [length_queryOrder h.coherent, h.cachedMaxDists, List.length_nil]

theorem Barren.batchPrefill (h : db.Barren) {newVectors : List V} {ids : List Nat} {density : ℚ}
    {left : List V × List Nat}
    (hrun : db.batchPrefill newVectors ids density = some (after, left)) : after.Barren := by
  obtain ⟨l, hload, hrun⟩ := Option.bind_eq_some_iff.mp hrun
  obtain ⟨c, hcaches, heq⟩ := Option.map_eq_some_iff.mp hrun
  obtain rfl : ({ db with toCore := c } : Database V R) = after := congrArg Prod.fst heq
  obtain ⟨s, hs, hpages⟩ := Option.bind_eq_some_iff.mp hload
  obtain ⟨hnone, hpage, hfile⟩ := NoPages.prepareFiles h.storage hs
  obtain rfl := Load.prefillPages_of_pages_nil hnone.pages hpages
  exact Barren.of_updateCaches (d := { db with dbStorage := s }) hnone
    (h.pageSize.trans hpage.symm) (h.fileSize.trans hfile.symm) h.distToAnchorBuffer hcaches

theorem Barren.batchPrefillParallel (h : db.Barren) {newVectors : List V} {ids : List Nat}
    {density : ℚ} {scheds : List (List (Nat × Bool))} {left : List V × List Nat}
    (hrun : db.batchPrefillParallel newVectors ids density scheds = .returned (after, left)) :
    after.Barren := by
  obtain ⟨st, hst, hrun⟩ := Outcome.bind_eq_returned.mp hrun
  obtain ⟨s, hs, rfl⟩ := Option.map_eq_some_iff.mp (Outcome.ofOption_eq_returned.mp hst)
  obtain ⟨hnone, hpage, hfile⟩ := NoPages.prepareFiles h.storage hs
  split at hrun
  · cases hrun
  obtain ⟨st', hloop, hrun⟩ := Outcome.bind_eq_returned.mp hrun
  obtain ⟨c, hcaches, hrun⟩ := Outcome.bind_eq_returned.mp hrun
  cases hrun
  -- a round would store a page
  obtain ⟨rfl, -⟩ := Outcome.repeatUntil_returned (· = _) (fun st sched st' hst _ hround => by
    subst hst
    obtain ⟨heaps, -, hround⟩ := Outcome.bind_eq_returned.mp hround
    obtain ⟨merged, -, hround⟩ :=
      Option.bind_eq_some_iff.mp (Outcome.ofOption_eq_returned.mp hround)
    obtain ⟨last, -, hround⟩ := Option.bind_eq_some_iff.mp hround
    obtain ⟨l, hstore, -⟩ := Option.map_eq_some_iff.mp hround
    cases (Load.storePage_of_pages_nil hnone.pages _ _ _).symm.trans hstore) rfl hloop
  exact Barren.of_updateCaches hnone (h.pageSize.trans hpage.symm) (h.fileSize.trans hfile.symm)
    h.distToAnchorBuffer (Outcome.ofOption_eq_returned.mp hcaches)

omit [LinearOrder R] in
theorem Barren.reopen (h : db.Barren)
    (hrun : load installed db.close nThreads buffersSize = some after) : after.Barren := by
  obtain ⟨opened, hopened, hrun⟩ := Option.bind_eq_some_iff.mp hrun
  obtain ⟨c, hcaches, rfl⟩ := Option.map_eq_some_iff.mp hrun
  have hwidth : db.dbConfig.fileSize / db.dbConfig.pageSize = 0 := by
    rw [h.pageSize, h.fileSize]
    exact h.storage.width
  obtain ⟨hpages, hbarren⟩ := construct_of_small hwidth (fun file hfile => by
    obtain ⟨mapped, hmapped, rfl⟩ := List.mem_map.mp hfile
    exact (h.storage.files mapped hmapped).trans h.fileSize.symm) hopened
  -- a page that is counted would be read
  have hcount : opened.dbStorage.nPages = 0 := by
    by_contra hne
    obtain ⟨cached, hcached, -⟩ := Option.bind_eq_some_iff.mp hcaches
    obtain ⟨p, hp⟩ := exists_page_of_updateAnchorCache hcached (Nat.pos_of_ne_zero hne)
    cases (page?_of_pages_nil hpages _ _).symm.trans hp
  have hopen := hbarren hcount
  exact Barren.of_updateCaches hopen.storage hopen.pageSize hopen.fileSize
    hopen.distToAnchorBuffer hcaches

/-- Every call that returns leaves a database without pages. -/
theorem Barren.returns (h : db.Barren) {call : Call V}
    (hreturn : db.Returns installed call after) : after.Barren := by
  cases call with
  | insertAVector newId newVector density =>
    obtain ⟨n, hrun⟩ := hreturn
    cases (h.not_insertAVector density n newId newVector).symm.trans (hrun n le_rfl)
  | request req =>
    obtain ⟨result, hrun⟩ := hreturn
    exact h.answer hrun
  | batchPrefill newVectors ids density =>
    obtain ⟨left, hrun⟩ := hreturn
    exact h.batchPrefill hrun
  | batchPrefillParallel newVectors ids density scheds =>
    obtain ⟨left, hrun⟩ := hreturn
    exact h.batchPrefillParallel hrun
  | reopen nThreads buffersSize => exact h.reopen hreturn

end Barren

/-! ## Runs -/

section Runs

variable {installed : SupportedDistanceFunctions → Installed V R}
  {pageSize fileSize dim nThreads buffersSize : Nat} {dtype : SupportedDataType}
  {distanceFunction : SupportedDistanceFunctions} {db after : Database V R}

/-- What a database and the one that is opened from its files have in common. -/
structure SameContents (db opened : Database V R) : Prop where
  nFiles : opened.dbStorage.nFiles = db.dbStorage.nFiles
  nPages : opened.dbStorage.nPages = db.dbStorage.nPages
  pages : opened.dbStorage.pages = db.dbStorage.pages
  cachedMaxDists : opened.cachedMaxDists = db.cachedMaxDists
  anchors : ∀ (i : Nat) (p : Page V R), db.dbStorage.pages[i]? = some p → p.slots ≠ [] →
    opened.cachedVectors[i]? = db.cachedVectors[i]?

/-- A database that is closed can be loaded again, with any number of threads and
any size of the local buffers, and is what it was. -/
theorem run_load_close
    (hCreate : create installed pageSize fileSize dtype dim distanceFunction nThreads buffersSize =
      some db)
    (hDvd : pageSize ∣ fileSize) (hRun : Run installed KeepsCapacity db after)
    (nThreads' buffersSize' : Nat) :
    ∃ opened, load installed after.close nThreads' buffersSize' = some opened ∧
      after.SameContents opened := by
  have hpos := (construct_of_create hCreate).2.1
  have hsteady := (create_fresh hDvd hCreate).steady.run hpos hRun
  have hcount : after.dbStorage.nFiles * fileSize / pageSize = after.dbStorage.nPages := by
    rw [hsteady.sane.uniform.nPages_eq, hsteady.layout.fileSize, hsteady.layout.pageSize]
    exact Nat.mul_div_assoc _ hDvd
  obtain ⟨opened, hload, hstorage, -, hopened⟩ :=
    hsteady.load_returns hcount nThreads' buffersSize'
  have hcoherent := hsteady.sane.coherent
  have hcoherent' := hopened.sane.coherent
  rw [hstorage] at hcoherent'
  refine ⟨opened, hload, congrArg _ hstorage, congrArg _ hstorage, congrArg _ hstorage,
    hcoherent'.maxDists.trans hcoherent.maxDists.symm, fun i p hp hne => ?_⟩
  obtain ⟨a, ha⟩ := exists_anchor hne
  exact (hcoherent'.vectors i p a hp ha).trans (hcoherent.vectors i p a hp ha).symm

end Runs

end Database

/-! ## A run -/

section Example

open Distance

/-- One vector on the first page of capacity three. -/
def oneVector : Database (Vec ℚ 1) ℚ := (oneThread.insertAVector 1 1 0 (.point 5)).get rfl

/-- The same database, closed and loaded with two threads. -/
def oneVectorReopened : Database (Vec ℚ 1) ℚ :=
  (Database.load (fun _ => squaredL2Installed ℚ 1) oneVector.close 2 4).get rfl

theorem insert_reopen :
    Database.Run (fun _ => squaredL2Installed ℚ 1) Database.KeepsCapacity oneThread
      oneVectorReopened :=
  .tail (.single ⟨.insertAVector 0 (.point 5) 1, by decide +kernel,
      .of_nil (by decide +kernel) (Option.some_get _).symm⟩)
    ⟨.reopen 2 4, by decide +kernel, (Option.some_get _).symm⟩

theorem Database.run_load_close_insert :
    ∃ opened, Database.load (fun _ => squaredL2Installed ℚ 1) oneVectorReopened.close 3 5 =
        some opened ∧
      oneVectorReopened.SameContents opened :=
  Database.run_load_close (Option.some_get _).symm (by decide) insert_reopen 3 5

end Example

end Spheres
