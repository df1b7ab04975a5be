import Spheres.Library.Rows
import Spheres.Storage.Page

/-!
# Data files and page addressing

A storage maps its data files one after the other; each mapped file is cut into
pages, and a page index is turned into a file and a position in that file by
division and modulo. `pages` is the concatenation of all files, and on a
storage whose files all have `file_size / page_size` pages (`Uniform`) reading
and changing a page by its index is reading and changing that list.
-/

namespace Spheres

/-- A mapped data file. Its pages lie at consecutive multiples of `pagesize`. -/
structure MappedDataFile (V R : Type*) where
  filesize : Nat
  pagesize : Nat
  pages : List (Page V R)
  deriving DecidableEq

/-- A data file on disk: its size and the contents of its pages. -/
structure DataFile (V R : Type*) where
  filesize : Nat
  pages : List (Page V R)
  deriving DecidableEq

structure Storage (V R : Type*) where
  files : List (MappedDataFile V R)
  nFiles : Nat
  pageSize : Nat
  fileSize : Nat
  idOffset : Nat
  vectorOffset : Nat
  nPages : Nat
  elementSize : Nat
  vectorDim : Nat
  maxNumVectorsPerPage : Nat
  deriving DecidableEq

variable {V R : Type*}

/-- `MappedDataFile::MappedDataFile` on an existing file. A shared mapping
shows the bytes of the file. -/
def MappedDataFile.map [Zero R] (pSize : Nat) (file : DataFile V R) : MappedDataFile V R where
  filesize := file.filesize
  pagesize := pSize
  pages := (List.range (file.filesize / pSize)).map fun i => file.pages.getD i Page.zeroed

/-- The contents that a mapped file leaves on disk. -/
def MappedDataFile.unmap (file : MappedDataFile V R) : DataFile V R :=
  ⟨file.filesize, file.pages⟩

/-- `posix_fallocate` makes a file of `f_size` zero bytes. -/
def DataFile.create [Zero R] (pSize fSize : Nat) : DataFile V R :=
  ⟨fSize, List.replicate (fSize / pSize) Page.zeroed⟩

namespace Storage

/-- The capacity of a page, as `create_storage` and `load_storage` compute it
for `page_size >= 16`. -/
def capacity (pageSize elementSize dim : Nat) : Nat :=
  (pageSize - Defaults.firstNBytesPerPage) / (8 + elementSize * dim)

def createStorageFile [Zero R] (s : Storage V R) : Storage V R :=
  { s with
    files := s.files ++ [.map s.pageSize (.create s.pageSize s.fileSize)]
    nFiles := s.nFiles + 1
    nPages := s.nPages + s.fileSize / s.pageSize }

def createStorage [Zero R] (pageSize fileSize : Nat) (dtype : SupportedDataType) (dim : Nat) :
    Storage V R :=
  let idOffset := Defaults.firstNBytesPerPage
  let maxNumVectorsPerPage := capacity pageSize dtype.elementSize dim
  let vectorOffset := idOffset + 8 * maxNumVectorsPerPage
  createStorageFile
    { files := [], nFiles := 0, pageSize, fileSize, idOffset, vectorOffset, nPages := 0,
      elementSize := dtype.elementSize, vectorDim := dim, maxNumVectorsPerPage }

/-- The storage that maps the first `n_files` files of a configuration. -/
def mapStorage [Zero R] (config : DatabaseConfig) (disk : List (DataFile V R)) : Storage V R :=
  let idOffset := Defaults.firstNBytesPerPage
  let maxNumVectorsPerPage := capacity config.pageSize config.dtype.elementSize config.dim
  let vectorOffset := idOffset + 8 * maxNumVectorsPerPage
  let nPages := config.nFiles * config.fileSize / config.pageSize
  { files := (disk.take config.nFiles).map (.map config.pageSize), nFiles := config.nFiles,
    pageSize := config.pageSize, fileSize := config.fileSize, idOffset, vectorOffset, nPages,
    elementSize := config.dtype.elementSize, vectorDim := config.dim, maxNumVectorsPerPage }

/-- `load_storage`; a missing data file makes the mapping throw. -/
def loadStorage [Zero R] (config : DatabaseConfig) (disk : List (DataFile V R)) :
    Option (Storage V R) :=
  if config.nFiles ≤ disk.length then some (mapStorage config disk) else none

def calculateFileIndex (s : Storage V R) (pageIdx : Nat) : Nat :=
  pageIdx / (s.fileSize / s.pageSize)

def calculatePageIndex (s : Storage V R) (pageIdx : Nat) : Nat :=
  pageIdx % (s.fileSize / s.pageSize)

/-- `files[file_index].pages[page_index]`; outside the two vectors there is no page. -/
def page? (s : Storage V R) (fileIndex pageIndex : Nat) : Option (Page V R) :=
  (s.files[fileIndex]?).bind fun file => file.pages[pageIndex]?

/-- The page with a given page index. -/
def pageAt? (s : Storage V R) (pageIdx : Nat) : Option (Page V R) :=
  s.page? (s.calculateFileIndex pageIdx) (s.calculatePageIndex pageIdx)

/-- The storage after a write to one of its pages. -/
def writePage (s : Storage V R) (fileIndex pageIndex : Nat) (g : Page V R → Page V R) :
    Storage V R :=
  { s with files := s.files.modify fileIndex fun file =>
      { file with pages := file.pages.modify pageIndex g } }

/-- Write to one page, if there is such a page. -/
def modifyPage (s : Storage V R) (fileIndex pageIndex : Nat) (g : Page V R → Page V R) :
    Option (Storage V R) :=
  (s.page? fileIndex pageIndex).map fun _ => s.writePage fileIndex pageIndex g

def modifyPageAt (s : Storage V R) (pageIdx : Nat) (g : Page V R → Page V R) :
    Option (Storage V R) :=
  s.modifyPage (s.calculateFileIndex pageIdx) (s.calculatePageIndex pageIdx) g

/-- `get_array_view_of_page`, each row together with the id that
`get_vector_id` reads for it. -/
def getArrayViewOfPage (s : Storage V R) (pageIdx : Nat) : List (Nat × V) :=
  if s.files.isEmpty then []
  else if s.calculateFileIndex pageIdx ≥ s.files.length ∨
      s.calculatePageIndex pageIdx ≥ s.nPages / s.nFiles then []
  else match s.pageAt? pageIdx with
    | none => []
    | some p => p.slots

/-- All pages of all files in the order of their indices. -/
def pages (s : Storage V R) : List (Page V R) := (s.files.map (·.pages)).flatten

/-- Every mapped file has the sizes of the storage and `file_size / page_size`
pages, at least one, and the counts agree with the mapped files. -/
structure Uniform (s : Storage V R) : Prop where
  width_pos : 0 < s.fileSize / s.pageSize
  sizes : ∀ file ∈ s.files, file.filesize = s.fileSize ∧ file.pagesize = s.pageSize
  width : ∀ file ∈ s.files, file.pages.length = s.fileSize / s.pageSize
  nFiles_eq : s.nFiles = s.files.length
  nPages_eq : s.nPages = s.nFiles * (s.fileSize / s.pageSize)

instance (s : Storage V R) : Decidable s.Uniform :=
  decidable_of_iff
    (0 < s.fileSize / s.pageSize ∧
      (∀ file ∈ s.files, file.filesize = s.fileSize ∧ file.pagesize = s.pageSize) ∧
      (∀ file ∈ s.files, file.pages.length = s.fileSize / s.pageSize) ∧
      s.nFiles = s.files.length ∧ s.nPages = s.nFiles * (s.fileSize / s.pageSize))
    ⟨fun ⟨h₁, h₂, h₃, h₄, h₅⟩ => ⟨h₁, h₂, h₃, h₄, h₅⟩, fun ⟨h₁, h₂, h₃, h₄, h₅⟩ =>
      ⟨h₁, h₂, h₃, h₄, h₅⟩⟩

/-- The sizes that no operation changes. -/
structure SameShape (s s' : Storage V R) : Prop where
  pageSize : s'.pageSize = s.pageSize
  fileSize : s'.fileSize = s.fileSize
  idOffset : s'.idOffset = s.idOffset
  vectorOffset : s'.vectorOffset = s.vectorOffset
  elementSize : s'.elementSize = s.elementSize
  vectorDim : s'.vectorDim = s.vectorDim
  capacity : s'.maxNumVectorsPerPage = s.maxNumVectorsPerPage

theorem SameShape.refl (s : Storage V R) : SameShape s s := ⟨rfl, rfl, rfl, rfl, rfl, rfl, rfl⟩

theorem SameShape.trans {s s' s'' : Storage V R} (h : SameShape s s') (h' : SameShape s' s'') :
    SameShape s s'' :=
  ⟨h'.1.trans h.1, h'.2.trans h.2, h'.3.trans h.3, h'.4.trans h.4, h'.5.trans h.5,
    h'.6.trans h.6, h'.7.trans h.7⟩

/-- A write to one page is not seen in the others. -/
theorem page?_writePage (s : Storage V R) (fi pi : Nat) (g : Page V R → Page V R) (f p : Nat) :
    (s.writePage fi pi g).page? f p =
      if (f, p) = (fi, pi) then (s.page? f p).map g else s.page? f p := by
  simp only [page?, writePage, List.getElem?_modify, Prod.mk.injEq]
  cases s.files[f]? with
  | none => simp
  | some file =>
    by_cases hf : fi = f
    · subst hf
      by_cases hp : pi = p
      · subst hp
        simp
      · simp [hp, Ne.symm hp]
    · simp [hf, Ne.symm hf]

section Uniform

variable {s : Storage V R}

theorem Uniform.rows (h : s.Uniform) :
    ∀ row ∈ s.files.map (·.pages), row.length = s.fileSize / s.pageSize := by
  intro row hrow
  obtain ⟨file, hfile, rfl⟩ := List.mem_map.mp hrow
  exact h.width file hfile

theorem Uniform.length_pages (h : s.Uniform) : s.pages.length = s.nPages := by
  rw [pages, Library.Rows.length_flatten_of_width h.rows, h.nPages_eq, h.nFiles_eq,
    List.length_map]

/-- Reading a page by its index reads the list of all pages. -/
theorem Uniform.pageAt?_eq (h : s.Uniform) (i : Nat) : s.pageAt? i = s.pages[i]? := by
  rw [pages, Library.Rows.getElem?_flatten_of_width h.width_pos h.rows]
  simp [pageAt?, page?, calculateFileIndex, calculatePageIndex, List.getElem?_map,
    Option.bind_map]

/-- The view of an existing page shows all its slots. -/
theorem Uniform.getArrayViewOfPage_eq (h : s.Uniform) {i : Nat} {p : Page V R}
    (hp : s.pages[i]? = some p) : s.getArrayViewOfPage i = p.slots := by
  have hread := (h.pageAt?_eq i).trans hp
  obtain ⟨file, hfile, -⟩ := Option.bind_eq_some_iff.mp hread
  have hlt : s.calculateFileIndex i < s.files.length := (List.getElem?_eq_some_iff.mp hfile).1
  have hpos : 0 < s.nFiles := h.nFiles_eq ▸ Nat.zero_lt_of_lt hlt
  have hmod : s.calculatePageIndex i < s.nPages / s.nFiles := by
    rw [h.nPages_eq, Nat.mul_div_cancel_left _ hpos]
    exact Nat.mod_lt _ h.width_pos
  have hne : s.files.isEmpty = false := by
    rw [List.isEmpty_eq_false_iff]
    exact List.ne_nil_of_length_pos (Nat.zero_lt_of_lt hlt)
  rw [getArrayViewOfPage, hne, if_neg Bool.false_ne_true, if_neg (by omega), hread]

theorem rows_writePage (fi pi : Nat) (g : Page V R → Page V R) :
    (s.writePage fi pi g).files.map (·.pages) =
      (s.files.map (·.pages)).modify fi fun row => row.modify pi g := by
  apply List.ext_getElem?
  intro j
  simp only [writePage, List.getElem?_map, List.getElem?_modify]
  cases s.files[j]? with
  | none => rfl
  | some file =>
    simp only [Option.map_some]
    split <;> simp

/-- A storage of the same layout with other contents. -/
structure Rewritten (s s' : Storage V R) (pages' : List (Page V R)) : Prop where
  uniform : s'.Uniform
  shape : SameShape s s'
  pages_eq : s'.pages = pages'

theorem Uniform.writePage (h : s.Uniform) (fi pi : Nat) (g : Page V R → Page V R) :
    (s.writePage fi pi g).Uniform where
  width_pos := h.width_pos
  sizes := by
    intro file hfile
    obtain ⟨j, hj, rfl⟩ := List.mem_iff_getElem.mp hfile
    have hlt : j < s.files.length := by simpa [Storage.writePage] using hj
    have hold := h.sizes s.files[j] (List.getElem_mem hlt)
    simp only [Storage.writePage, List.getElem_modify]
    split <;> exact hold
  width := by
    intro file hfile
    have hrow := List.mem_map_of_mem (f := fun file => file.pages) hfile
    rw [rows_writePage] at hrow
    exact Library.Rows.width_modify h.rows _ (fun _ => List.length_modify _ _ _) _ _ hrow
  nFiles_eq := by simp [Storage.writePage, h.nFiles_eq]
  nPages_eq := h.nPages_eq

/-- Writing a page by its index changes that entry of the list of all pages. -/
theorem Uniform.modifyPageAt (h : s.Uniform) {i : Nat} (hi : i < s.pages.length)
    (g : Page V R → Page V R) :
    ∃ s', s.modifyPageAt i g = some s' ∧ Rewritten s s' (s.pages.modify i g) := by
  have hp : s.page? (s.calculateFileIndex i) (s.calculatePageIndex i) = some s.pages[i] :=
    (h.pageAt?_eq i).trans (List.getElem?_eq_getElem hi)
  refine ⟨s.writePage (s.calculateFileIndex i) (s.calculatePageIndex i) g, ?_,
    h.writePage _ _ g, ⟨rfl, rfl, rfl, rfl, rfl, rfl, rfl⟩, ?_⟩
  · rw [Storage.modifyPageAt, modifyPage, hp, Option.map_some]
  · rw [pages, rows_writePage]
    exact Library.Rows.flatten_modify_of_width h.width_pos h.rows g i

/-- The first page of file `f` by its page index. -/
theorem Uniform.modifyPage_zero (h : s.Uniform) (f : Nat) (g : Page V R → Page V R) :
    s.modifyPage f 0 g = s.modifyPageAt (f * (s.fileSize / s.pageSize)) g := by
  rw [Storage.modifyPageAt, calculateFileIndex, calculatePageIndex, Nat.mul_div_cancel _ h.width_pos,
    Nat.mul_mod_left]

end Uniform

theorem pages_map_create [Zero R] (pSize fSize : Nat) :
    (MappedDataFile.map pSize (.create pSize fSize) : MappedDataFile V R).pages =
      List.replicate (fSize / pSize) Page.zeroed := by
  have hget : ∀ i, (List.replicate (fSize / pSize) (Page.zeroed : Page V R)).getD i Page.zeroed =
      Page.zeroed := by
    intro i
    rw [List.getD_eq_getElem?_getD, List.getElem?_replicate]
    split <;> rfl
  simp only [MappedDataFile.map, DataFile.create, hget]
  rw [List.map_const', List.length_range]

/-- A new file adds its zeroed pages behind all others. -/
theorem pages_createStorageFile [Zero R] (s : Storage V R) :
    s.createStorageFile.pages =
      s.pages ++ List.replicate (s.fileSize / s.pageSize) Page.zeroed := by
  simp [pages, createStorageFile, pages_map_create]

theorem Uniform.createStorageFile [Zero R] {s : Storage V R} (h : s.Uniform) :
    s.createStorageFile.Uniform where
  width_pos := h.width_pos
  sizes := by
    intro file hfile
    rcases List.mem_append.mp hfile with hfile | hfile
    · exact h.sizes file hfile
    · obtain rfl := List.mem_singleton.mp hfile
      exact ⟨rfl, rfl⟩
  width := by
    intro file hfile
    rcases List.mem_append.mp hfile with hfile | hfile
    · exact h.width file hfile
    · obtain rfl := List.mem_singleton.mp hfile
      rw [pages_map_create, List.length_replicate]
      rfl
  nFiles_eq := by simp [Storage.createStorageFile, h.nFiles_eq]
  nPages_eq := by
    simp only [Storage.createStorageFile, h.nPages_eq]
    rw [Nat.succ_mul]

theorem sameShape_createStorageFile [Zero R] (s : Storage V R) :
    SameShape s s.createStorageFile := ⟨rfl, rfl, rfl, rfl, rfl, rfl, rfl⟩

theorem Rewritten.trans {s s' s'' : Storage V R} {pages' pages'' : List (Page V R)}
    (h : Rewritten s s' pages') (h' : Rewritten s' s'' pages'') : Rewritten s s'' pages'' :=
  ⟨h'.uniform, h.shape.trans h'.shape, h'.pages_eq⟩

theorem Uniform.rewritten_createStorageFile [Zero R] {s : Storage V R} (h : s.Uniform) :
    Rewritten s s.createStorageFile
      (s.pages ++ List.replicate (s.fileSize / s.pageSize) Page.zeroed) :=
  ⟨h.createStorageFile, sameShape_createStorageFile s, pages_createStorageFile s⟩

end Storage

end Spheres
