import Spheres.Interface.IdealStore

/-!
# Lifetimes without an end

Only `~Database` writes the number of files down. When a process ends without
it, the data files keep what was written to them, for they are shared mappings,
but the configuration file counts the files that there were when the database
was opened, and `load_database` maps no others. What lies on newer files is
lost, even if it was stored on an older one before it was moved; what is left
is a database with all its invariants.
-/

namespace Spheres

open Execution Library Distance

variable {V R : Type*}

/-- A call with what its caller gets, or the end of a process without the destructor and the
load of what it leaves, in which some pairs are lost. -/
inductive Event (V R : Type*) where
  | call (e : Call V × Reply V R)
  | abandoned (nThreads buffersSize : Nat) (lost : IdealStore V)

/-- An ideal store that may lose pairs when it is abandoned. -/
inductive IdealStore.LossyStep [LinearOrder R] (dist : V → V → R) :
    IdealStore V → Event V R → IdealStore V → Prop
  | call {store store' : IdealStore V} {e : Call V × Reply V R} :
    IdealStore.Step dist store e store' → LossyStep dist store (.call e) store'
  | abandoned (kept lost : IdealStore V) (nThreads buffersSize : Nat) :
    LossyStep dist (kept + lost) (.abandoned nThreads buffersSize lost) kept

/-! ## The first files -/

namespace Storage

/-- A storage without the files from position `n` on. -/
def keepFiles (s : Storage V R) (n : Nat) : Storage V R :=
  { s with files := s.files.take n, nFiles := n, nPages := n * (s.fileSize / s.pageSize) }

/-- The pages of the files that are left out. -/
def pagesBehind (s : Storage V R) (n : Nat) : List (Page V R) :=
  ((s.files.drop n).map (·.pages)).flatten

theorem pages_keepFiles (s : Storage V R) (n : Nat) :
    s.pages = (s.keepFiles n).pages ++ s.pagesBehind n := by
  rw [pages, pages, keepFiles, pagesBehind, ← List.flatten_append, ← List.map_append,
    List.take_append_drop]

theorem Uniform.keepFiles {s : Storage V R} (h : s.Uniform) {n : Nat} (hn : n ≤ s.nFiles) :
    (s.keepFiles n).Uniform where
  width_pos := h.width_pos
  sizes file hfile := h.sizes file (List.mem_of_mem_take hfile)
  width file hfile := h.width file (List.mem_of_mem_take hfile)
  nFiles_eq := by
    rw [h.nFiles_eq] at hn
    exact (List.length_take_of_le hn).symm
  nPages_eq := rfl

theorem Uniform.nFiles_le {s s' : Storage V R} (h : s.Uniform) (h' : s'.Uniform)
    (hshape : s.SameShape s') (hlength : s.pages.length ≤ s'.pages.length) :
    s.nFiles ≤ s'.nFiles := by
  rw [h.length_pages, h'.length_pages, h.nPages_eq, h'.nPages_eq, hshape.fileSize,
    hshape.pageSize] at hlength
  exact Nat.le_of_mul_le_mul_right hlength h.width_pos

/-- No file behind the last one that is counted is opened. -/
theorem loadStorage_take [Zero R] (config : DatabaseConfig) (disk : List (DataFile V R)) :
    loadStorage config (disk.take config.nFiles) = loadStorage config disk := by
  have hlength : config.nFiles ≤ (disk.take config.nFiles).length ↔
      config.nFiles ≤ disk.length := by
    rw [List.length_take]
    omega
  simp only [loadStorage, mapStorage, hlength, List.take_take, Nat.min_self]

end Storage

namespace Execution

variable {c c' : Core V R}

theorem Edited.length_le [Zero R] {grown i : Nat} {p : Page V R} {g : Page V R → Page V R}
    (h : Edited c c' grown i p g) : c.dbStorage.pages.length ≤ c'.dbStorage.pages.length := by
  rw [h.rewritten.pages_eq, List.length_modify, List.length_append]
  exact Nat.le_add_right _ _

theorem Core.updateCaches_dbStorage [Inhabited V] (h : c.dbStorage.Uniform)
    (hrun : c.updateCaches = some c') : c'.dbStorage = c.dbStorage := by
  obtain ⟨cached, hcaches, -⟩ := Core.updateCaches_eq h
  obtain rfl := Option.some.inj (hcaches.symm.trans hrun)
  rfl

/-- An insertion adds pages or leaves their number. -/
theorem Core.Sane.insertAVector_length [Zero R] [LinearOrder R] [Inhabited V] (dist : V → V → R)
    {density : ℚ} {fuel newId : Nat} {newVector : V} (h : c.Sane)
    (hrun : Execution.insertAVector dist density fuel c newId newVector = some c') :
    c.dbStorage.pages.length ≤ c'.dbStorage.pages.length := by
  induction fuel generalizing c newId newVector with
  | zero => cases hrun
  | succ fuel ih =>
    rcases h.insert dist density newId newVector with
      ⟨grown, i, p, g, left, d, hchange, hedit, hcont⟩ | ⟨_, _, _, _, _, _, hnone⟩
    · cases left with
      | none =>
        obtain ⟨-, hreturn⟩ := hcont
        obtain rfl : d = c' := Option.some.inj ((hreturn fuel).symm.trans hrun)
        exact hedit.length_le
      | some victim =>
        obtain ⟨hbuf, hnext⟩ := hcont
        have hsane := hedit.sane h hchange (Or.inr ⟨_, hbuf⟩)
        exact hedit.length_le.trans (ih hsane ((hnext fuel).symm.trans hrun))
    · rw [hnone] at hrun
      cases hrun

end Execution

namespace Database

/-- The files of a database whose destructor does not run. -/
def abandon (db : Database V R) : DiskImage V R where
  config := db.dbConfig
  files := db.dbStorage.files.map (·.unmap)

/-- The pages on files that the configuration file does not count. -/
def uncounted (db : Database V R) : List (Page V R) :=
  db.dbStorage.pagesBehind db.dbConfig.nFiles

/-- The configuration file counts one of the files or more. -/
structure Counts (db : Database V R) : Prop where
  pos : 0 < db.dbConfig.nFiles
  le : db.dbConfig.nFiles ≤ db.dbStorage.nFiles

section Lifetimes

variable [Field R] [LinearOrder R] [Inhabited V]
  {installed : SupportedDistanceFunctions → Installed V R} {pageSize fileSize : Nat}
  {dtype : SupportedDataType} {dim : Nat} {distanceFunction : SupportedDistanceFunctions}
  {dist : DistFunc V R} {db after : Database V R}

omit [LinearOrder R] in
/-- Files that are not counted make no difference. -/
theorem load_take (image : DiskImage V R) (nThreads buffersSize : Nat) :
    load installed ⟨image.config, image.files.take image.config.nFiles⟩ nThreads buffersSize =
      load installed image nThreads buffersSize := by
  rw [load, load, construct, construct, Storage.loadStorage_take]

omit [LinearOrder R] in
theorem load_config {image : DiskImage V R} {nThreads buffersSize : Nat}
    (hrun : load installed image nThreads buffersSize = some after) :
    after.dbConfig = image.config := by
  obtain ⟨opened, hopened, hcaches⟩ := Option.bind_eq_some_iff.mp hrun
  obtain ⟨s, -, rfl⟩ := Option.map_eq_some_iff.mp hopened
  obtain ⟨c, -, rfl⟩ := Option.map_eq_some_iff.mp hcaches
  rfl

omit [LinearOrder R] [Inhabited V] in
theorem Steady.nFiles_pos (h : db.Steady installed pageSize fileSize dtype dim distanceFunction) :
    0 < db.dbStorage.nFiles := by
  have hpos := List.length_pos_of_ne_nil h.sane.nonempty
  rw [h.sane.uniform.length_pages, h.sane.uniform.nPages_eq] at hpos
  exact Nat.pos_of_mul_pos_right hpos

omit [Field R] [LinearOrder R] [Inhabited V] in
theorem Counts.of_le (hc : db.Counts) (hconfig : after.dbConfig = db.dbConfig)
    (hle : db.dbStorage.nFiles ≤ after.dbStorage.nFiles) : after.Counts where
  pos := by
    rw [hconfig]
    exact hc.pos
  le := by
    rw [hconfig]
    exact hc.le.trans hle

/-- A call does not lower the number of files, and a database that is closed and loaded again
counts all of them. -/
theorem Counts.replies (hc : db.Counts)
    (h : db.Serves installed pageSize fileSize dtype dim distanceFunction dist)
    (hpos : 0 < pageSize) {e : Call V × Reply V R} (hreply : db.Replies installed e after) :
    after.Counts := by
  cases hreply with
  | insertAVector hreturn =>
    obtain ⟨n, hrun⟩ := hreturn
    obtain ⟨c, hc', rfl⟩ := Option.map_eq_some_iff.mp (hrun n le_rfl)
    obtain ⟨hsane, hshape⟩ := h.steady.sane.insertAVector db.installed.distFunc hc'
    exact hc.of_le rfl (h.steady.sane.uniform.nFiles_le hsane.uniform hshape
      (h.steady.sane.insertAVector_length _ hc'))
  | request hrun =>
    obtain ⟨b, hb, -⟩ := answer_refill h.steady.sane.coherent hrun
    obtain rfl : after = db.refill b := hb
    exact hc.of_le rfl le_rfl
  | batchPrefill hrun =>
    obtain ⟨l, hload, hrun⟩ := Option.bind_eq_some_iff.mp hrun
    obtain ⟨c, hcaches, heq⟩ := Option.map_eq_some_iff.mp hrun
    obtain rfl : ({ db with toCore := c } : Database V R) = after := congrArg Prod.fst heq
    have hextended := Load.batchPrefillSingleThreaded_extended h.steady.sane.uniform hload
    have hstorage : c.dbStorage = l.dbStorage := Core.updateCaches_dbStorage hextended.uniform hcaches
    refine hc.of_le rfl ?_
    show db.dbStorage.nFiles ≤ c.dbStorage.nFiles
    rw [hstorage]
    exact h.steady.sane.uniform.nFiles_le hextended.uniform hextended.shape hextended.length
  | batchPrefillParallel hrun =>
    obtain ⟨d, hextended, -, hcaches, hconfig, -⟩ :=
      batchPrefillParallel_extended h.steady.sane.uniform hrun
    refine hc.of_le hconfig ?_
    rw [Core.updateCaches_dbStorage hextended.uniform hcaches]
    exact h.steady.sane.uniform.nFiles_le hextended.uniform hextended.shape hextended.length
  | @reopen nThreads buffersSize after hreturn =>
    obtain ⟨after', hrun, hstorage, -⟩ :=
      h.steady.load_returns (h.steady.count_of_load hpos hreturn) nThreads buffersSize
    obtain rfl : after' = after := Option.some.inj (hrun.symm.trans hreturn)
    have hconfig := load_config hrun
    have hcount : after'.dbConfig.nFiles = db.dbStorage.nFiles := congrArg (·.nFiles) hconfig
    exact ⟨hcount ▸ h.steady.nFiles_pos, by rw [hcount, hstorage]⟩

/-- A database over the files that are counted. -/
theorem Serves.kept (h : db.Serves installed pageSize fileSize dtype dim distanceFunction dist)
    (hc : db.Counts) :
    ∃ kept : Database V R, kept.Serves installed pageSize fileSize dtype dim distanceFunction dist ∧
      kept.Counts ∧ kept.dbStorage = db.dbStorage.keepFiles db.dbConfig.nFiles ∧
      kept.close = ⟨db.abandon.config, db.abandon.files.take db.abandon.config.nFiles⟩ := by
  let s : Storage V R := db.dbStorage.keepFiles db.dbConfig.nFiles
  have huniform : s.Uniform := h.steady.sane.uniform.keepFiles hc.le
  obtain ⟨cached, -, hcoherent⟩ := Core.updateCaches_eq
    (c := { db.toCore with dbStorage := s }) huniform
  have hpages : ∀ p ∈ s.pages, p ∈ db.dbStorage.pages := by
    intro p hp
    rw [Storage.pages_keepFiles db.dbStorage db.dbConfig.nFiles]
    exact List.mem_append_left _ hp
  have hnonempty : s.pages ≠ [] := by
    have hlength := huniform.length_pages
    rw [huniform.nPages_eq] at hlength
    exact List.ne_nil_of_length_pos (hlength ▸ Nat.mul_pos hc.pos huniform.width_pos)
  let kept : Database V R := { db with
    dbStorage := s, cachedVectors := cached, cachedMaxDists := radiusList s.pages,
    distToAnchorBuffer := [] }
  have hshape : db.dbStorage.SameShape s := ⟨rfl, rfl, rfl, rfl, rfl, rfl, rfl⟩
  have hsane : kept.toCore.Sane := ⟨huniform, hnonempty, hcoherent, by simp [kept]⟩
  refine ⟨kept, ⟨h.steady.of_sane hsane hshape rfl rfl, ⟨h.bounding.distFunc, h.bounding.capacity,
    fun p hp => h.bounding.pages p (hpages p hp), by simp [kept]⟩, h.buffers⟩, ⟨hc.pos, le_rfl⟩,
    rfl, ?_⟩
  exact congrArg (DiskImage.mk db.dbConfig) List.map_take

/-- What is left after the process has ended without the destructor can be loaded: a database
over the counted files. -/
theorem Serves.load_abandon
    (h : db.Serves installed pageSize fileSize dtype dim distanceFunction dist) (hc : db.Counts)
    (hpos : 0 < pageSize) (hDvd : pageSize ∣ fileSize)
    (hDist : (installed distanceFunction).distFunc = dist) (nThreads buffersSize : Nat) :
    ∃ reopened, load installed db.abandon nThreads buffersSize = some reopened ∧
      reopened.Serves installed pageSize fileSize dtype dim distanceFunction dist ∧
      reopened.Counts ∧
      reopened.dbStorage = db.dbStorage.keepFiles db.dbConfig.nFiles := by
  obtain ⟨kept, hkept, hcounts, hstorage, hclose⟩ := h.kept hc
  have hcount : kept.dbStorage.nFiles * fileSize / pageSize = kept.dbStorage.nPages := by
    rw [hkept.steady.sane.uniform.nPages_eq, hkept.steady.layout.fileSize,
      hkept.steady.layout.pageSize]
    exact Nat.mul_div_assoc _ hDvd
  obtain ⟨reopened, hload, hsame, -⟩ := hkept.steady.load_returns hcount nThreads buffersSize
  have hreply : kept.Replies installed (.reopen nThreads buffersSize, .done) reopened :=
    .reopen hload
  refine ⟨reopened, ?_, hkept.replies hpos hDist ?_ hreply, hcounts.replies hkept hpos hreply,
    hsame.trans hstorage⟩
  · rw [← load_take, ← hclose, hload]
  · trivial

variable (installed pageSize fileSize dtype dim distanceFunction dist) in
/-- A permitted call, or a new lifetime after one that was not ended. -/
inductive Lives (db : Database V R) : Event V R → Database V R → Prop
  | call {e : Call V × Reply V R} {after : Database V R} :
    db.Permits installed pageSize fileSize dtype dim distanceFunction dist e.1 →
    db.Replies installed e after → db.Lives (.call e) after
  | abandoned {nThreads buffersSize : Nat} {after : Database V R} :
    load installed db.abandon nThreads buffersSize = some after →
    db.Lives (.abandoned nThreads buffersSize (contents db.uncounted)) after

omit [Field R] [LinearOrder R] [Inhabited V] in
theorem contents_uncounted (db : Database V R) :
    contents db.dbStorage.pages =
      contents (db.dbStorage.keepFiles db.dbConfig.nFiles).pages + contents db.uncounted := by
  rw [uncounted, ← contents_append, ← Storage.pages_keepFiles]

omit [Field R] [LinearOrder R] [Inhabited V] in
theorem contents_eq_zero_iff {pages : List (Page V R)} :
    contents pages = 0 ↔ ∀ p ∈ pages, p.slots = [] := by
  rw [Multiset.eq_zero_iff_forall_notMem]
  constructor
  · intro h p hp
    rw [List.eq_nil_iff_forall_not_mem]
    exact fun s hs => h s (mem_contents.mpr ⟨p, hp, hs⟩)
  · intro h s hs
    obtain ⟨p, hp, hs⟩ := mem_contents.mp hs
    rw [h p hp] at hs
    cases hs

/-- Every step of a lifetime is one of the ideal store, and keeps the database in order. -/
theorem Lives.step (h : db.Serves installed pageSize fileSize dtype dim distanceFunction dist)
    (hc : db.Counts) (hpos : 0 < pageSize) (hDvd : pageSize ∣ fileSize)
    (hDist : (installed distanceFunction).distFunc = dist)
    (hsound : PruneSound dist (installed distanceFunction).pruneCheckFunc) {event : Event V R}
    (hlives : db.Lives installed pageSize fileSize dtype dim distanceFunction dist event after) :
    IdealStore.LossyStep dist (contents db.dbStorage.pages) event (contents after.dbStorage.pages) ∧
      after.Serves installed pageSize fileSize dtype dim distanceFunction dist ∧ after.Counts := by
  cases hlives with
  | call hok hreply =>
    exact ⟨.call (h.step hpos hDist hsound hok hreply), h.replies hpos hDist hok hreply,
      hc.replies h hpos hreply⟩
  | @abandoned nThreads buffersSize after hload =>
    obtain ⟨reopened, hreopen, hserves, hcounts, hstorage⟩ :=
      h.load_abandon hc hpos hDvd hDist nThreads buffersSize
    obtain rfl : reopened = after := Option.some.inj (hreopen.symm.trans hload)
    rw [contents_uncounted, ← hstorage]
    exact ⟨.abandoned .., hserves, hcounts⟩

end Lifetimes

end Database

/-! ## A file too late -/

/-- The points 0 to 9. -/
def tenPoints : List (Vec ℚ 1) := (List.range 10).map fun i : Nat => .point i

/-- The load into pages of three vectors and files of three pages. -/
def loadTenPoints : Option (Database (Vec ℚ 1) ℚ × List (Vec ℚ 1) × List Nat) :=
  oneThread.batchPrefill tenPoints (List.range 10) 1

theorem loadTenPoints_isSome : loadTenPoints.isSome := by decide +kernel

def afterTenPoints : Database (Vec ℚ 1) ℚ := (loadTenPoints.get loadTenPoints_isSome).1

end Spheres
