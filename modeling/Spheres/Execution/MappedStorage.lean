import Spheres.Execution.Insert
import Spheres.Storage.ArrayView

/-!
# Storages and caches over mapped bytes

The functions that write to a storage or rebuild the caches from it, as they run on the
bytes of the mapped files: vectors are read through spans and copied with `memcpy`, and the
anchor cache is flat memory of numbers. They have the names of the functions on pages, and
each of them does on bytes what the other does on the pages that the bytes stand for
(`Holds`). What bytes ask for in addition is room: a vector must not be appended to a full
page, behind which other bytes lie.
-/

namespace Spheres

open Execution Library

namespace PageLayout

variable {R : Type} {l : PageLayout}

def createStorageFile (l : PageLayout) (s : MappedStorage) : MappedStorage :=
  { s with
    files := s.files ++ [List.replicate s.fileSize 0]
    nFiles := s.nFiles + 1
    nPages := s.nPages + s.fileSize / l.pageSize }

def calculateFileIndex (l : PageLayout) (s : MappedStorage) (pageIdx : Nat) : Nat :=
  pageIdx / (s.fileSize / l.pageSize)

def calculatePageIndex (l : PageLayout) (s : MappedStorage) (pageIdx : Nat) : Nat :=
  pageIdx % (s.fileSize / l.pageSize)

namespace NumberFormat

section Functions

variable [Zero R] (φ : l.NumberFormat R)

def appendNewVector (s : MappedStorage) (newId : UInt64) (newVector : List R)
    (fileIndex pageIndex : Nat) : Option MappedStorage :=
  (l.appendNewVector s.files newId (φ.bytesOf newVector) fileIndex pageIndex).map fun m =>
    { s with files := m }

/-- `append_new_vector` to a page given by its index. -/
def appendNewVectorAt (s : MappedStorage) (newId : UInt64) (newVector : List R) (pageIdx : Nat) :
    Option MappedStorage :=
  φ.appendNewVector s newId newVector (l.calculateFileIndex s pageIdx)
    (l.calculatePageIndex s pageIdx)

def placeNewVectorAt (s : MappedStorage) (newId : UInt64) (newVector : List R)
    (fileIndex pageIndex vectorIndex : Nat) : Option MappedStorage :=
  (l.placeNewVectorAt s.files newId (φ.bytesOf newVector) l.elementSize l.dim fileIndex pageIndex
    vectorIndex).map fun m => { s with files := m }

/-- `calculate_new_max_dist` followed by `update_in_page_max_dist`. -/
def renewMaxDist [LT R] [DecidableLT R] (distFunc : List R → List R → R) (s : MappedStorage)
    (fileIndex pageIndex : Nat) : Option MappedStorage :=
  (φ.calculateNewMaxDist distFunc s fileIndex pageIndex).bind fun newMaxDist =>
  (l.updateInPageMaxDist s.files fileIndex pageIndex (φ.bytes newMaxDist) l.elementSize).map
    fun m => { s with files := m }

/-- `create_storage_file`, then `append_new_vector` to the first page of the new file. -/
def appendToNewFile (s : MappedStorage) (newId : UInt64) (newVector : List R) :
    Option MappedStorage :=
  let s := l.createStorageFile s
  φ.appendNewVector s newId newVector (s.files.length - 1) 0

/-- `update_anchor_cache_single_threaded`. The cache has a row of `vector_dim` numbers for
each page. -/
def updateAnchorCacheSingleThreaded (s : MappedStorage) (cachedVectors : List R) :
    Option (List R) :=
  let resized := cachedVectors ++ List.replicate (s.nPages * l.dim - cachedVectors.length) 0
  (List.range s.nPages).foldlM (fun cached i => do
    let n ← l.getNVectorsOf s.files (l.calculateFileIndex s i) (l.calculatePageIndex s i)
    if n = 0 then some cached
    else do
      let v ← φ.getVector s (l.calculateFileIndex s i) (l.calculatePageIndex s i) 0
      Rows.overwrite (i * l.dim) v cached) resized

/-- `update_cached_max_dist_single_threaded`. -/
def updateCachedMaxDistSingleThreaded (s : MappedStorage) :
    Option (List (IdTaggedDistance R)) :=
  (List.range s.nPages).foldlM (fun cached i => do
    let n ← l.getNVectorsOf s.files (l.calculateFileIndex s i) (l.calculatePageIndex s i)
    if 0 < n then do
      let maxDist ← φ.getMaxDistAt s (l.calculateFileIndex s i) (l.calculatePageIndex s i)
      some (cached ++ [⟨maxDist, i⟩])
    else some cached) []

/-- `fill_dist_to_anchor_buffer_single_threaded` with `sort` set. -/
def fillDistToAnchorBufferSingleThreaded [LinearOrder R] (l : PageLayout)
    (distFunc : List R → List R → R) (cachedVectors : List R)
    (cachedMaxDists : List (IdTaggedDistance R)) (query : List R) :
    Option (List (IdTaggedDistance R)) :=
  (cachedMaxDists.mapM fun e =>
    if e.second * l.dim + l.dim ≤ cachedVectors.length then
      some (⟨distFunc query (Rows.row l.dim e.second cachedVectors), e.second⟩ : IdTaggedDistance R)
    else none).map fun buffer => buffer.insertionSort (· ≤ ·)

end Functions

/-! ## What the mapped files hold -/

section Storage

variable [Zero R] {φ : l.NumberFormat R}

/-- The bytes of the mapped files stand for the pages of a storage. -/
structure Holds (φ : l.NumberFormat R) (s : Storage (Span R l.dim) R) (b : MappedStorage) :
    Prop where
  simulates : Simulates φ.encoding b.fileSize b.files s
  uniform : s.Uniform
  nFiles : b.nFiles = s.nFiles
  nPages : b.nPages = s.nPages

variable {s : Storage (Span R l.dim) R} {b : MappedStorage} {f p i : Nat}
  {page : Page (Span R l.dim) R}

theorem Holds.calculateFileIndex_eq (h : φ.Holds s b) (i : Nat) :
    l.calculateFileIndex b i = s.calculateFileIndex i := by
  rw [calculateFileIndex, Storage.calculateFileIndex, h.simulates.fileSize,
    h.simulates.layout.pageSize]

theorem Holds.calculatePageIndex_eq (h : φ.Holds s b) (i : Nat) :
    l.calculatePageIndex b i = s.calculatePageIndex i := by
  rw [calculatePageIndex, Storage.calculatePageIndex, h.simulates.fileSize,
    h.simulates.layout.pageSize]

theorem Holds.represents (h : φ.Holds s b) (hp : s.page? f p = some page) :
    φ.encoding.Represents b.files f p page :=
  h.simulates.pages f p page hp

/-- The bound that `get_array_view_of_page` checks. -/
theorem Holds.lt_width (h : φ.Holds s b) (hp : s.page? f p = some page) :
    p < b.nPages / b.nFiles := by
  obtain ⟨file, hfile, hpage⟩ := Option.bind_eq_some_iff.mp hp
  have hlt := (List.getElem?_eq_some_iff.mp hpage).1
  rw [h.uniform.width file (List.mem_of_getElem? hfile)] at hlt
  have hf := (List.getElem?_eq_some_iff.mp hfile).1
  rw [h.nPages, h.nFiles, h.uniform.nPages_eq, h.uniform.nFiles_eq,
    Nat.mul_div_cancel_left _ (Nat.zero_lt_of_lt hf)]
  exact hlt

/-- A write to one page that does on bytes what `g` does to the page. -/
theorem Holds.modifyPage (h : φ.Holds s b) {g : Page (Span R l.dim) R → Page (Span R l.dim) R}
    {write : Option (Memory UInt8)}
    (hwrite : ∀ page ∈ s.page? f p, ∃ m', write = some m' ∧
      b.files.ChangesOnly m' (l.pageBytes f p) ∧ φ.encoding.Represents m' f p (g page)) :
    Follows φ.Holds (s.modifyPage f p g) (write.map fun m => { b with files := m }) := by
  intro s' hs'
  obtain ⟨m', hm', hsim⟩ := h.simulates.modifyPage hs' hwrite
  obtain ⟨page, -, rfl⟩ := Option.map_eq_some_iff.mp hs'
  exact ⟨_, congrArg (Option.map _) hm', hsim, h.uniform.writePage f p g, h.nFiles, h.nPages⟩

theorem Holds.append (h : φ.Holds s b) (hsize : l.pageSize < 2 ^ 64)
    (hroom : ∀ page ∈ s.page? f p, page.nVectors < l.maxNumVectorsPerPage) (newId : Nat)
    (newVector : Span R l.dim) :
    Follows φ.Holds (s.modifyPage f p (.append newId newVector))
      (φ.appendNewVector b (.ofNat newId) newVector.numbers f p) :=
  h.modifyPage fun page hp => (h.represents hp).append newId newVector hsize (hroom page hp)

theorem Holds.place (h : φ.Holds s b) {vectorIndex : Nat}
    (hi : ∀ page ∈ s.page? f p, vectorIndex < page.nVectors) (newId : Nat)
    (newVector : Span R l.dim) :
    Follows φ.Holds (s.modifyPage f p (.placeAt newId newVector vectorIndex))
      (φ.placeNewVectorAt b (.ofNat newId) newVector.numbers f p vectorIndex) :=
  h.modifyPage fun page hp => (h.represents hp).placeAt newId newVector (hi page hp)

theorem Holds.setMaxDist (h : φ.Holds s b) (d : R) :
    Follows φ.Holds (s.modifyPage f p (.setMaxDist d))
      ((l.updateInPageMaxDist b.files f p (φ.bytes d) l.elementSize).map fun m =>
        { b with files := m }) :=
  h.modifyPage fun _ hp => (h.represents hp).setMaxDist d

theorem Holds.renew [LT R] [DecidableLT R] (h : φ.Holds s b) (hsize : l.pageSize < 2 ^ 64)
    (distFunc : List R → List R → R) :
    Follows φ.Holds (s.modifyPage f p (.renewMaxDist (Span.lift distFunc)))
      (φ.renewMaxDist distFunc b f p) := by
  intro s' hs'
  obtain ⟨page, hp, -⟩ := Option.map_eq_some_iff.mp hs'
  have hcalc : φ.calculateNewMaxDist distFunc b f p = some _ :=
    calculateNewMaxDist_eq (h.represents hp) hsize (h.lt_width hp)
  rw [renewMaxDist, hcalc, Option.bind_some]
  refine h.modifyPage (fun page' hp' => ?_) s' hs'
  obtain rfl : page = page' := Option.some.inj (hp.symm.trans hp')
  exact (h.represents hp).setMaxDist _

omit [Zero R] in
/-- A write leaves pages where they are. -/
theorem indices_of_modifyPage {s s' : Storage (Span R l.dim) R}
    {g : Page (Span R l.dim) R → Page (Span R l.dim) R} (hs : s.modifyPage f p g = some s')
    (i : Nat) : s'.calculateFileIndex i = s.calculateFileIndex i ∧
      s'.calculatePageIndex i = s.calculatePageIndex i := by
  obtain ⟨_, -, rfl⟩ := Option.map_eq_some_iff.mp hs
  exact ⟨rfl, rfl⟩

theorem Holds.createStorageFile (h : φ.Holds s b) :
    φ.Holds s.createStorageFile (l.createStorageFile b) where
  simulates := h.simulates.createStorageFile φ.bytes_zero
  uniform := h.uniform.createStorageFile
  nFiles := congrArg (· + 1) h.nFiles
  nPages := by
    show b.nPages + b.fileSize / l.pageSize = s.nPages + s.fileSize / s.pageSize
    rw [h.nPages, h.simulates.fileSize, h.simulates.layout.pageSize]

theorem Holds.length_files (h : φ.Holds s b) : b.files.length = s.files.length :=
  h.simulates.files

theorem Holds.appendToNewFile (h : φ.Holds s b) (hsize : l.pageSize < 2 ^ 64)
    (hcap : 0 < l.maxNumVectorsPerPage) (newId : Nat) (newVector : Span R l.dim) :
    Follows φ.Holds (Execution.appendToNewFile s newId newVector)
      (φ.appendToNewFile b (.ofNat newId) newVector.numbers) := by
  rw [Execution.appendToNewFile, NumberFormat.appendToNewFile]
  have hnew := h.createStorageFile
  rw [hnew.length_files]
  refine hnew.append hsize (fun page hp => ?_) newId newVector
  obtain ⟨file, hfile, hpage⟩ := Option.bind_eq_some_iff.mp hp
  rw [Storage.createStorageFile, List.length_append, List.length_singleton, Nat.add_sub_cancel,
    List.getElem?_concat_length] at hfile
  obtain rfl := Option.some.inj hfile
  rw [Storage.pages_map_create] at hpage
  obtain ⟨-, rfl⟩ := List.mem_replicate.mp (List.mem_of_getElem? hpage)
  exact hcap

/-- The radius of a page that has just been written to. -/
theorem Holds.renewAt [LT R] [DecidableLT R] {t : MappedStorage} {s' : Storage (Span R l.dim) R}
    (h : φ.Holds s' t) (hsize : l.pageSize < 2 ^ 64) (distFunc : List R → List R → R)
    {g : Page (Span R l.dim) R → Page (Span R l.dim) R} (hs : s.modifyPage f p g = some s')
    (i : Nat) :
    Follows φ.Holds (Execution.renewMaxDist (Span.lift distFunc) s' i)
      (φ.renewMaxDist distFunc t (s.calculateFileIndex i) (s.calculatePageIndex i)) := by
  rw [Execution.renewMaxDist, Storage.modifyPageAt, (indices_of_modifyPage hs i).1,
    (indices_of_modifyPage hs i).2]
  exact h.renew hsize distFunc

/-! ## The caches -/

theorem Holds.pageAt (h : φ.Holds s b) (hp : s.pageAt? i = some page) :
    φ.encoding.Represents b.files (l.calculateFileIndex b i) (l.calculatePageIndex b i) page := by
  rw [h.calculateFileIndex_eq, h.calculatePageIndex_eq]
  exact h.represents hp

/-- The radius cache is rebuilt from the bytes as from the pages. -/
theorem Holds.updateCachedMaxDist (h : φ.Holds s b) (hsize : l.pageSize < 2 ^ 64) :
    Follows (· = ·) (Execution.updateCachedMaxDistSingleThreaded s)
      (φ.updateCachedMaxDistSingleThreaded b) := by
  rw [Execution.updateCachedMaxDistSingleThreaded, NumberFormat.updateCachedMaxDistSingleThreaded,
    h.nPages]
  refine Follows.foldlM ?_ rfl
  rintro cached _ i - rfl next hnext
  obtain ⟨page, hp, rfl⟩ := Option.map_eq_some_iff.mp hnext
  have hrep := h.pageAt hp
  have hn := toNat_nVectors hrep hsize
  have hpos : 0 < UInt64.ofNat page.nVectors ↔ 0 < page.nVectors := by
    rw [UInt64.lt_iff_toNat_lt, hn]
    rfl
  refine ⟨_, ?_, rfl⟩
  rw [hrep.nVectors]
  simp only [Option.bind_eq_bind, Option.bind_some, getMaxDistAt_eq hrep, hpos]
  split
  · rfl
  · rfl

/-- The flat anchor cache is rebuilt row by row. -/
theorem Holds.updateAnchorCache (h : φ.Holds s b) (hsize : l.pageSize < 2 ^ 64)
    (cachedVectors : List (Span R l.dim)) :
    Follows (fun (cells : List (Span R l.dim)) numbers =>
        numbers = (cells.map Span.numbers).flatten)
      (Execution.updateAnchorCacheSingleThreaded s cachedVectors)
      (φ.updateAnchorCacheSingleThreaded b (cachedVectors.map Span.numbers).flatten) := by
  have hwidth : ∀ cells : List (Span R l.dim), ∀ row ∈ cells.map Span.numbers,
      row.length = l.dim := by
    intro cells row hrow
    obtain ⟨v, -, rfl⟩ := List.mem_map.mp hrow
    exact v.length_eq
  have hlen : ((cachedVectors.map Span.numbers).flatten).length = cachedVectors.length * l.dim := by
    rw [Rows.length_flatten_of_width (hwidth _), List.length_map]
  have hresize : (cachedVectors.map Span.numbers).flatten ++
      List.replicate (b.nPages * l.dim - (cachedVectors.map Span.numbers).flatten.length) 0 =
        ((cachedVectors ++ List.replicate (s.nPages - cachedVectors.length) default).map
          Span.numbers).flatten := by
    rw [hlen, h.nPages, ← Nat.sub_mul, List.map_append, List.flatten_append, List.map_replicate,
      ← List.flatten_replicate_replicate]
    rfl
  rw [Execution.updateAnchorCacheSingleThreaded, NumberFormat.updateAnchorCacheSingleThreaded,
    hresize, h.nPages]
  refine Follows.mono (P := fun (cells : List (Span R l.dim)) numbers =>
      numbers = (cells.map Span.numbers).flatten ∧ s.nPages ≤ cells.length) ?_
    fun _ _ _ hP => hP.1
  refine Follows.foldlM ?_ ⟨rfl, ?_⟩
  · rintro cells _ i hi ⟨rfl, hroom⟩ next hnext
    obtain ⟨page, hp, rfl⟩ := Option.map_eq_some_iff.mp hnext
    have hrep := h.pageAt hp
    have hn := toNat_nVectors hrep hsize
    have hi : i < cells.length := (List.mem_range.mp hi).trans_le hroom
    cases hslots : page.slots with
    | nil =>
      have hzero : page.nVectors = 0 := congrArg List.length hslots
      refine ⟨_, ?_, rfl, by simpa [Page.anchor, hslots] using hroom⟩
      rw [hrep.nVectors, hzero]
      simp [Page.anchor, hslots]
    | cons a rest =>
      have hne : UInt64.ofNat page.nVectors ≠ 0 := by
        intro hzero
        rw [hzero, Page.nVectors, hslots] at hn
        cases hn
      refine ⟨_, ?_, rfl, by simpa [Page.anchor, hslots] using hroom⟩
      rw [hrep.nVectors]
      simp only [Option.bind_eq_bind, Option.bind_some, if_neg hne]
      rw [getVector_eq hrep (v := a) (by rw [hslots]; rfl), Option.bind_some,
        Rows.overwrite_flatten (hwidth cells) (by simpa using hi) a.2.length_eq]
      simp [Page.anchor, hslots, List.map_set]
  · rw [List.length_append, List.length_replicate]
    omega

omit [Zero R] in
/-- The distance buffer is filled from the flat cache as from its rows. -/
theorem fillDistToAnchorBuffer_follows [LinearOrder R] (distFunc : List R → List R → R)
    (cachedVectors : List (Span R l.dim)) (cachedMaxDists : List (IdTaggedDistance R))
    (query : Span R l.dim) :
    Follows (· = ·)
      (Execution.fillDistToAnchorBufferSingleThreaded (Span.lift distFunc) cachedVectors
        cachedMaxDists query)
      (fillDistToAnchorBufferSingleThreaded l distFunc (cachedVectors.map Span.numbers).flatten
        cachedMaxDists query.numbers) := by
  have hwidth : ∀ row ∈ cachedVectors.map Span.numbers, row.length = l.dim := by
    intro row hrow
    obtain ⟨v, -, rfl⟩ := List.mem_map.mp hrow
    exact v.length_eq
  refine Follows.map (Follows.mapM fun e _ entry hentry => ?_) fun _ _ _ h => congrArg _ h
  obtain ⟨a, ha, rfl⟩ := Option.map_eq_some_iff.mp hentry
  have hi : e.second < cachedVectors.length := (List.getElem?_eq_some_iff.mp ha).1
  have hroom : e.second * l.dim + l.dim ≤ ((cachedVectors.map Span.numbers).flatten).length := by
    rw [Rows.length_flatten_of_width hwidth, List.length_map, ← Nat.succ_mul]
    exact Nat.mul_le_mul_right l.dim hi
  have hrow : (cachedVectors.map Span.numbers)[e.second]? = some a.numbers := by
    rw [List.getElem?_map, ha, Option.map_some]
  refine ⟨_, if_pos hroom, ?_⟩
  rw [Rows.row_flatten hwidth hrow]
  rfl

end Storage

end NumberFormat

end PageLayout

end Spheres
