import Mathlib.Data.UInt
import Spheres.Library.LittleEndian
import Spheres.Library.Memory
import Spheres.Storage.Files

/-!
# The bytes of a page

A page begins with a header of sixteen bytes, its number of vectors and its radius.
Behind it lie the ids of all slots, and behind these their vectors; there are as many
slots as `create_storage` finds room for. The functions here read and write the mapped
files byte by byte, and what each of them changes is the range it is meant to change.
Two ranges of different slots or pages are disjoint for every page size, every number of
bytes of a vector and every number of pages, so no write is seen through another range.
-/

namespace Spheres

open Library (Memory)
open Library.Memory (Address range load store memcpy memset ChangesOnly add_add offset_add
  range_subset disjoint_range memcpy_eq_store store_spec load_isSome_iff)
open Library.LittleEndian (longWord longWordBytes length_longWordBytes longWord_longWordBytes)
open Library.Rows (le_or_le_of_ne)

/-- The sizes that decide where the parts of a page lie. A page has room for its header. -/
structure PageLayout where
  pageSize : Nat
  dtype : SupportedDataType
  dim : Nat
  room : Defaults.firstNBytesPerPage ≤ pageSize

/-- `Page`: the start of a page in its mapped file and the two parts of its header. -/
structure MappedPage where
  pagesize : Nat
  pageAddr : Address
  nVectors : Address
  maxDist : Address

/-- `Page::Page`. -/
def MappedPage.page (pagesize : Nat) (pageAddr : Address) : MappedPage where
  pagesize := pagesize
  pageAddr := pageAddr
  nVectors := pageAddr
  maxDist := pageAddr + 8

namespace PageLayout

def idOffset : Nat := Defaults.firstNBytesPerPage

variable (l : PageLayout)

def elementSize : Nat := l.dtype.elementSize

def maxNumVectorsPerPage : Nat := Storage.capacity l.pageSize l.elementSize l.dim

def vectorOffset : Nat := idOffset + 8 * l.maxNumVectorsPerPage

/-- `files[file_index].pages[page_index]`. A mapped file holds `filesize / pagesize` pages,
one behind the other. -/
def page? (m : Memory UInt8) (fileIndex pageIndex : Nat) : Option MappedPage := do
  let file ← m[fileIndex]?
  if pageIndex < file.length / l.pageSize then
    some (.page l.pageSize ⟨fileIndex, pageIndex * l.pageSize⟩)
  else none

def placeNewVectorAt (m : Memory UInt8) (newId : UInt64) (newVector : List UInt8)
    (elementSize dim fileIndex pageIndex vectorIndex : Nat) : Option (Memory UInt8) := do
  let page ← l.page? m fileIndex pageIndex
  let m ← memcpy m (page.pageAddr + l.vectorOffset + vectorIndex * dim * elementSize) newVector
    (elementSize * dim)
  memcpy m (page.pageAddr + idOffset + vectorIndex * 8) (longWordBytes newId) 8

def getNVectorsOf (m : Memory UInt8) (fileIndex pageIndex : Nat) : Option UInt64 := do
  let page ← l.page? m fileIndex pageIndex
  (load m page.nVectors 8).map longWord

/-- The `long` is converted to `size_t` before it is added. -/
def updateNumberOfVectorsAt (m : Memory UInt8) (fileIndex pageIndex : Nat) (amount : Int64) :
    Option (Memory UInt8) := do
  let page ← l.page? m fileIndex pageIndex
  let n ← l.getNVectorsOf m fileIndex pageIndex
  store m page.nVectors (longWordBytes (n + amount.toUInt64))

def updateInPageMaxDist (m : Memory UInt8) (fileIndex pageIndex : Nat) (data : List UInt8)
    (elementSize : Nat) : Option (Memory UInt8) := do
  let page ← l.page? m fileIndex pageIndex
  let m ← memset m page.maxDist 0 Defaults.maxNBytesOfNativeType
  memcpy m page.maxDist data elementSize

/-- `get_max_dist_at`, the bytes of the number. -/
def getMaxDistAt (m : Memory UInt8) (fileIndex pageIndex : Nat) : Option (List UInt8) := do
  let page ← l.page? m fileIndex pageIndex
  load m page.maxDist l.elementSize

def getVectorId (m : Memory UInt8) (fileIndex pageIndex vectorIndex : Nat) : Option UInt64 := do
  let page ← l.page? m fileIndex pageIndex
  (load m (page.pageAddr + idOffset + vectorIndex * 8) 8).map longWord

/-- `get_vector`, the bytes of the span. -/
def getVector (m : Memory UInt8) (fileIndex pageIndex vectorIndex : Nat) :
    Option (List UInt8) := do
  let page ← l.page? m fileIndex pageIndex
  load m (page.pageAddr + l.vectorOffset + vectorIndex * l.dim * l.elementSize)
    (l.dim * l.elementSize)

/-! ## The parts of a page -/

def pageStart (fileIndex pageIndex : Nat) : Address := ⟨fileIndex, pageIndex * l.pageSize⟩

def pageBytes (fileIndex pageIndex : Nat) : Set Address :=
  range (l.pageStart fileIndex pageIndex) l.pageSize

def header (fileIndex pageIndex : Nat) : Set Address :=
  range (l.pageStart fileIndex pageIndex) Defaults.firstNBytesPerPage

def nVectorsCell (fileIndex pageIndex : Nat) : Set Address :=
  range (l.pageStart fileIndex pageIndex) 8

def maxDistCell (fileIndex pageIndex : Nat) : Set Address :=
  range (l.pageStart fileIndex pageIndex + 8) Defaults.maxNBytesOfNativeType

def idCell (fileIndex pageIndex vectorIndex : Nat) : Set Address :=
  range (l.pageStart fileIndex pageIndex + idOffset + vectorIndex * 8) 8

def vectorCell (fileIndex pageIndex vectorIndex : Nat) : Set Address :=
  range (l.pageStart fileIndex pageIndex + l.vectorOffset + vectorIndex * l.dim * l.elementSize)
    (l.elementSize * l.dim)

/-- The bytes of a slot. -/
def slotCells (fileIndex pageIndex vectorIndex : Nat) : Set Address :=
  l.idCell fileIndex pageIndex vectorIndex ∪ l.vectorCell fileIndex pageIndex vectorIndex

variable {l} {m m' : Memory UInt8} {f f' p p' i i' : Nat} {S : Set Address}

/-- A storage has the sizes and the offsets of the layout. -/
structure LaysOut {V R : Type*} (l : PageLayout) (s : Storage V R) : Prop where
  pageSize : s.pageSize = l.pageSize
  elementSize : s.elementSize = l.elementSize
  vectorDim : s.vectorDim = l.dim
  idOffset : s.idOffset = idOffset
  vectorOffset : s.vectorOffset = l.vectorOffset
  maxNumVectorsPerPage : s.maxNumVectorsPerPage = l.maxNumVectorsPerPage

theorem LaysOut.of_sameShape {V R : Type*} {s s' : Storage V R} (h : l.LaysOut s)
    (hs : s.SameShape s') : l.LaysOut s' where
  pageSize := hs.pageSize.trans h.pageSize
  elementSize := hs.elementSize.trans h.elementSize
  vectorDim := hs.vectorDim.trans h.vectorDim
  idOffset := hs.idOffset.trans h.idOffset
  vectorOffset := hs.vectorOffset.trans h.vectorOffset
  maxNumVectorsPerPage := hs.capacity.trans h.maxNumVectorsPerPage

theorem laysOut_createStorage {V R : Type*} [Zero R] (fileSize : Nat) :
    l.LaysOut (Storage.createStorage l.pageSize fileSize l.dtype l.dim : Storage V R) :=
  ⟨rfl, rfl, rfl, rfl, rfl, rfl⟩

theorem laysOut_mapStorage {V R : Type*} [Zero R] {config : DatabaseConfig}
    (hpage : config.pageSize = l.pageSize) (hdtype : config.dtype = l.dtype)
    (hdim : config.dim = l.dim) (disk : List (DataFile V R)) :
    l.LaysOut (Storage.mapStorage config disk) := by
  refine ⟨hpage, congrArg SupportedDataType.elementSize hdtype, hdim, rfl, ?_, ?_⟩
  · rw [Storage.mapStorage, hpage, hdtype, hdim]
    rfl
  · rw [Storage.mapStorage, hpage, hdtype, hdim]
    rfl

theorem elementSize_le : l.elementSize ≤ Defaults.maxNBytesOfNativeType := by
  rw [elementSize]
  cases l.dtype with
  | float => decide
  | double => decide

/-- All ids and vectors together fit behind the header. -/
theorem vectorOffset_add_le :
    l.vectorOffset + l.maxNumVectorsPerPage * (l.elementSize * l.dim) ≤ l.pageSize := by
  have hfit := Nat.div_mul_le_self (l.pageSize - Defaults.firstNBytesPerPage)
    (8 + l.elementSize * l.dim)
  have hcap : (l.pageSize - Defaults.firstNBytesPerPage) / (8 + l.elementSize * l.dim) =
      l.maxNumVectorsPerPage := rfl
  have hroom := l.room
  rw [hcap, Nat.mul_add] at hfit
  rw [vectorOffset, idOffset]
  omega

theorem slot_offset (i : Nat) : i * l.dim * l.elementSize = i * (l.elementSize * l.dim) := by
  rw [Nat.mul_assoc, Nat.mul_comm l.dim]

theorem id_end_le (hi : i < l.maxNumVectorsPerPage) :
    idOffset + i * 8 + 8 ≤ l.vectorOffset := by
  rw [vectorOffset]
  omega

theorem vector_end_le (hi : i < l.maxNumVectorsPerPage) :
    l.vectorOffset + i * (l.elementSize * l.dim) + l.elementSize * l.dim ≤ l.pageSize := by
  have hslot := Nat.mul_le_mul_right (l.elementSize * l.dim) (Nat.succ_le_of_lt hi)
  have hall := l.vectorOffset_add_le
  rw [Nat.succ_mul] at hslot
  omega

theorem vectorOffset_le : l.vectorOffset ≤ l.pageSize :=
  (Nat.le_add_right _ _).trans l.vectorOffset_add_le

theorem header_subset : l.header f p ⊆ l.pageBytes f p :=
  range_subset rfl le_rfl (Nat.add_le_add_left l.room _)

theorem nVectorsCell_subset : l.nVectorsCell f p ⊆ l.header f p :=
  range_subset rfl le_rfl (Nat.add_le_add_left (by decide) _)

theorem maxDistCell_subset : l.maxDistCell f p ⊆ l.header f p :=
  range_subset rfl (Nat.le_add_right _ _) (Nat.add_assoc _ _ _).le

theorem idCell_eq : l.idCell f p i = range (l.pageStart f p + (idOffset + i * 8)) 8 := by
  rw [idCell, add_add]

theorem vectorCell_eq : l.vectorCell f p i =
    range (l.pageStart f p + (l.vectorOffset + i * (l.elementSize * l.dim)))
      (l.elementSize * l.dim) := by
  rw [vectorCell, add_add, slot_offset]

theorem idCell_subset (hi : i < l.maxNumVectorsPerPage) : l.idCell f p i ⊆ l.pageBytes f p := by
  have hid := id_end_le hi
  have hoff := l.vectorOffset_le
  rw [idCell_eq]
  refine range_subset rfl (Nat.le_add_right _ _) ?_
  rw [offset_add]
  omega

theorem vectorCell_subset (hi : i < l.maxNumVectorsPerPage) :
    l.vectorCell f p i ⊆ l.pageBytes f p := by
  have hvec := vector_end_le hi
  rw [vectorCell_eq]
  refine range_subset rfl (Nat.le_add_right _ _) ?_
  rw [offset_add]
  omega

theorem slotCells_subset (hi : i < l.maxNumVectorsPerPage) :
    l.slotCells f p i ⊆ l.pageBytes f p :=
  Set.union_subset (idCell_subset hi) (vectorCell_subset hi)

/-- Pages lie one behind the other, and files apart. -/
theorem disjoint_pageBytes (h : (f', p') ≠ (f, p)) :
    Disjoint (l.pageBytes f' p') (l.pageBytes f p) := by
  apply disjoint_range
  intro hf
  exact le_or_le_of_ne fun hp => h (Prod.ext hf hp)

/-- Two ranges of one page, given by their offsets in it. -/
theorem disjoint_in_page {a b n k : Nat} (h : a + n ≤ b ∨ b + k ≤ a) :
    Disjoint (range (l.pageStart f p + a) n) (range (l.pageStart f p + b) k) := by
  apply disjoint_range
  intro _
  simp only [offset_add]
  omega

theorem disjoint_idCell_vectorCell (hi : i < l.maxNumVectorsPerPage) :
    Disjoint (l.idCell f p i) (l.vectorCell f p i') := by
  have hid := id_end_le hi
  rw [idCell_eq, vectorCell_eq]
  exact disjoint_in_page (Or.inl (by omega))

theorem disjoint_slotCells_header (hi : i < l.maxNumVectorsPerPage) :
    Disjoint (l.slotCells f p i) (l.header f' p') := by
  by_cases hpage : (f, p) = (f', p')
  · cases hpage
    have hid : idOffset ≤ l.vectorOffset := Nat.le_add_right _ _
    rw [slotCells, idCell_eq, vectorCell_eq, Set.disjoint_union_left]
    constructor
    · exact disjoint_in_page (b := 0) (Or.inr (by rw [idOffset]; omega))
    · exact disjoint_in_page (b := 0) (Or.inr (by rw [idOffset] at hid; omega))
  · exact (disjoint_pageBytes hpage).mono (slotCells_subset hi) header_subset

theorem disjoint_slotCells (hi : i < l.maxNumVectorsPerPage) (hi' : i' < l.maxNumVectorsPerPage)
    (h : (f', p', i') ≠ (f, p, i)) : Disjoint (l.slotCells f' p' i') (l.slotCells f p i) := by
  by_cases hpage : (f', p') = (f, p)
  · cases hpage
    have hne : i' ≠ i := fun he => h (by rw [he])
    rw [slotCells, slotCells, Set.disjoint_union_left, Set.disjoint_union_right,
      Set.disjoint_union_right]
    refine ⟨⟨?_, disjoint_idCell_vectorCell hi'⟩, (disjoint_idCell_vectorCell hi).symm, ?_⟩
    · rw [idCell_eq, idCell_eq]
      exact disjoint_in_page (by omega)
    · have hrows := le_or_le_of_ne (w := l.elementSize * l.dim) hne
      rw [vectorCell_eq, vectorCell_eq]
      exact disjoint_in_page (by omega)
  · exact (disjoint_pageBytes hpage).mono (slotCells_subset hi') (slotCells_subset hi)

/-! ## No number wraps around

The sizes are of type `size_t`. When the bytes of a page and of a vector can be counted at
all, so can everything computed from them.
-/

theorem toNat_capacity (hsize : l.pageSize < 2 ^ 64)
    (hvector : 8 + l.elementSize * l.dim < 2 ^ 64) :
    ((UInt64.ofNat l.pageSize - UInt64.ofNat idOffset) /
      (UInt64.ofNat 8 + UInt64.ofNat l.elementSize * UInt64.ofNat l.dim)).toNat =
        l.maxNumVectorsPerPage := by
  have hroom : idOffset ≤ l.pageSize := l.room
  have hrest : l.pageSize - idOffset < 2 ^ 64 := by omega
  rw [← UInt64.ofNat_sub hroom, ← UInt64.ofNat_mul, ← UInt64.ofNat_add, UInt64.toNat_div,
    UInt64.toNat_ofNat_of_lt' hrest, UInt64.toNat_ofNat_of_lt' hvector]
  rfl

theorem toNat_vectorOffset (hsize : l.pageSize < 2 ^ 64) (hi : i < l.maxNumVectorsPerPage) :
    (UInt64.ofNat l.vectorOffset +
      UInt64.ofNat i * UInt64.ofNat l.dim * UInt64.ofNat l.elementSize).toNat =
        l.vectorOffset + i * l.dim * l.elementSize := by
  have hend := vector_end_le hi
  rw [← slot_offset] at hend
  have hlt : l.vectorOffset + i * l.dim * l.elementSize < 2 ^ 64 := by omega
  rw [← UInt64.ofNat_mul, ← UInt64.ofNat_mul, ← UInt64.ofNat_add,
    UInt64.toNat_ofNat_of_lt' hlt]

/-! ## Reading after a write -/

/-- The mapped files have this page. -/
def HasPage (l : PageLayout) (m : Memory UInt8) (fileIndex pageIndex : Nat) : Prop :=
  ∃ file, m[fileIndex]? = some file ∧ pageIndex < file.length / l.pageSize

theorem HasPage.page?_eq (h : l.HasPage m f p) :
    l.page? m f p = some (.page l.pageSize (l.pageStart f p)) := by
  obtain ⟨file, hfile, hlt⟩ := h
  rw [page?, hfile]
  exact if_pos hlt

theorem HasPage.fits (h : l.HasPage m f p) : m.Fits (l.pageStart f p) l.pageSize := by
  obtain ⟨file, hfile, hlt⟩ := h
  refine ⟨file, hfile, ?_⟩
  have := Nat.mul_le_of_le_div _ _ _ (Nat.succ_le_of_lt hlt)
  rwa [Nat.succ_mul] at this

theorem page?_eq_none (h : ¬ l.HasPage m f p) : l.page? m f p = none := by
  rw [page?]
  cases hm : m[f]? with
  | none => rfl
  | some file => exact if_neg fun hlt => h ⟨file, hm, hlt⟩

/-- A write to a file leaves its pages where they are. -/
theorem hasPage_iff (h : m.ChangesOnly m' S) : l.HasPage m' f p ↔ l.HasPage m f p := by
  have hlen := h.length_eq f
  unfold HasPage
  cases hm : m[f]? with
  | none =>
    rw [hm, Option.map_none, Option.map_eq_none_iff] at hlen
    simp [hlen]
  | some file =>
    rw [hm, Option.map_some, Option.map_eq_some_iff] at hlen
    obtain ⟨file', hfile', hlen⟩ := hlen
    simp [hfile', hlen]

theorem bind_page?_congr {β : Type} {g g' : MappedPage → Option β} (h : m.ChangesOnly m' S)
    (hg : g' (.page l.pageSize (l.pageStart f p)) = g (.page l.pageSize (l.pageStart f p))) :
    (l.page? m' f p >>= g') = (l.page? m f p >>= g) := by
  by_cases hp : l.HasPage m f p
  · rw [hp.page?_eq, ((hasPage_iff h).mpr hp).page?_eq]
    exact hg
  · rw [page?_eq_none hp, page?_eq_none (mt (hasPage_iff h).mp hp)]
    rfl

theorem getVectorId_congr (h : m.ChangesOnly m' S) (hS : Disjoint (l.idCell f p i) S) :
    l.getVectorId m' f p i = l.getVectorId m f p i :=
  bind_page?_congr h (congrArg (Option.map longWord) (h.load_eq hS))

theorem getVector_congr (h : m.ChangesOnly m' S) (hS : Disjoint (l.vectorCell f p i) S) :
    l.getVector m' f p i = l.getVector m f p i := by
  rw [vectorCell, Nat.mul_comm l.elementSize] at hS
  exact bind_page?_congr h (h.load_eq hS)

theorem getNVectorsOf_congr (h : m.ChangesOnly m' S) (hS : Disjoint (l.nVectorsCell f p) S) :
    l.getNVectorsOf m' f p = l.getNVectorsOf m f p :=
  bind_page?_congr h (congrArg (Option.map longWord) (h.load_eq hS))

/-- The bytes of a radius lie in its cell. -/
theorem radius_subset : range (l.pageStart f p + 8) l.elementSize ⊆ l.maxDistCell f p :=
  range_subset rfl le_rfl (Nat.add_le_add_left elementSize_le _)

theorem getMaxDistAt_congr (h : m.ChangesOnly m' S) (hS : Disjoint (l.maxDistCell f p) S) :
    l.getMaxDistAt m' f p = l.getMaxDistAt m f p :=
  bind_page?_congr h (h.load_eq (hS.mono_left radius_subset))

/-! ## The writes -/

/-- A range of a page lies in its file. -/
theorem HasPage.fits_range (h : l.HasPage m f p) {a n : Nat} (hn : a + n ≤ l.pageSize) :
    m.Fits (l.pageStart f p + a) n :=
  h.fits.mono rfl (by rw [offset_add]; omega)

theorem HasPage.getVectorId_eq (h : l.HasPage m f p) : l.getVectorId m f p i =
    (load m (l.pageStart f p + (idOffset + i * 8)) 8).map longWord := by
  rw [getVectorId, h.page?_eq, ← add_add]
  rfl

theorem HasPage.getVector_eq (h : l.HasPage m f p) : l.getVector m f p i =
    load m (l.pageStart f p + (l.vectorOffset + i * (l.elementSize * l.dim)))
      (l.elementSize * l.dim) := by
  rw [getVector, h.page?_eq, ← slot_offset, ← add_add, Nat.mul_comm l.elementSize]
  rfl

theorem HasPage.placeNewVectorAt_eq (h : l.HasPage m f p) {newId : UInt64}
    {newVector : List UInt8} (hv : newVector.length = l.elementSize * l.dim) :
    l.placeNewVectorAt m newId newVector l.elementSize l.dim f p i =
      (store m (l.pageStart f p + (l.vectorOffset + i * (l.elementSize * l.dim)))
        newVector).bind fun m =>
          store m (l.pageStart f p + (idOffset + i * 8)) (longWordBytes newId) := by
  rw [placeNewVectorAt, h.page?_eq, ← slot_offset, ← add_add,
    ← add_add, ← memcpy_eq_store hv]
  rfl

/-- What `place_new_vector_at` changes is the slot, and the slot then holds the new id and
the new vector. -/
theorem placeNewVectorAt_spec (hp : l.HasPage m f p) (hi : i < l.maxNumVectorsPerPage)
    (newId : UInt64) {newVector : List UInt8} (hv : newVector.length = l.elementSize * l.dim) :
    ∃ m', l.placeNewVectorAt m newId newVector l.elementSize l.dim f p i = some m' ∧
      m.ChangesOnly m' (l.slotCells f p i) ∧
      l.getVectorId m' f p i = some newId ∧ l.getVector m' f p i = some newVector := by
  have hvend := vector_end_le hi
  have hidend := id_end_le hi
  have hoff := l.vectorOffset_le
  obtain ⟨m₁, hstore₁, hch₁, hload₁⟩ := store_spec hv (hp.fits_range hvend)
  have hp₁ := (hasPage_iff hch₁).mpr hp
  obtain ⟨m₂, hstore₂, hch₂, hload₂⟩ := store_spec
    (length_longWordBytes newId)
    (hp₁.fits_range (a := idOffset + i * 8) (by omega))
  have hp₂ := (hasPage_iff hch₂).mpr hp₁
  rw [← vectorCell_eq] at hch₁
  rw [← idCell_eq] at hch₂
  refine ⟨m₂, ?_, ?_, ?_, ?_⟩
  · rw [hp.placeNewVectorAt_eq hv, hstore₁]
    exact hstore₂
  · rw [slotCells, Set.union_comm]
    exact hch₁.trans hch₂
  · rw [hp₂.getVectorId_eq, hload₂, Option.map_some, longWord_longWordBytes]
  · rw [getVector_congr hch₂ (disjoint_idCell_vectorCell hi).symm, hp₁.getVector_eq, hload₁]

theorem HasPage.getNVectorsOf_eq (h : l.HasPage m f p) :
    l.getNVectorsOf m f p = (load m (l.pageStart f p) 8).map longWord := by
  rw [getNVectorsOf, h.page?_eq]
  rfl

theorem HasPage.getMaxDistAt_eq (h : l.HasPage m f p) :
    l.getMaxDistAt m f p = load m (l.pageStart f p + 8) l.elementSize := by
  rw [getMaxDistAt, h.page?_eq]
  rfl

theorem HasPage.fits_nVectors (h : l.HasPage m f p) : m.Fits (l.pageStart f p) 8 :=
  h.fits.mono rfl (Nat.add_le_add_left (le_trans (by decide) l.room) _)

/-- What `update_number_of_vectors_at` changes is the number of vectors. -/
theorem updateNumberOfVectorsAt_spec (hp : l.HasPage m f p) (amount : Int64) :
    ∃ n m', l.getNVectorsOf m f p = some n ∧
      l.updateNumberOfVectorsAt m f p amount = some m' ∧
      m.ChangesOnly m' (l.nVectorsCell f p) ∧
      l.getNVectorsOf m' f p = some (n + amount.toUInt64) := by
  obtain ⟨bytes, hbytes⟩ :=
    Option.isSome_iff_exists.mp (load_isSome_iff.mpr hp.fits_nVectors)
  have hn : l.getNVectorsOf m f p = some (longWord bytes) := by
    rw [hp.getNVectorsOf_eq, hbytes, Option.map_some]
  obtain ⟨m', hstore, hch, hload⟩ := store_spec
    (length_longWordBytes (longWord bytes + amount.toUInt64))
    hp.fits_nVectors
  refine ⟨longWord bytes, m', hn, ?_, hch, ?_⟩
  · rw [updateNumberOfVectorsAt, hp.page?_eq, hn]
    exact hstore
  · rw [((hasPage_iff hch).mpr hp).getNVectorsOf_eq, hload, Option.map_some,
      longWord_longWordBytes]

/-- What `update_in_page_max_dist` changes is the radius. -/
theorem updateInPageMaxDist_spec (hp : l.HasPage m f p) {data : List UInt8}
    (hdata : data.length = l.elementSize) :
    ∃ m', l.updateInPageMaxDist m f p data l.elementSize = some m' ∧
      m.ChangesOnly m' (l.maxDistCell f p) ∧ l.getMaxDistAt m' f p = some data := by
  have hsize := l.elementSize_le
  have hroom : 8 + Defaults.maxNBytesOfNativeType ≤ l.pageSize := l.room
  obtain ⟨m₁, hstore₁, hch₁, -⟩ := store_spec
    (List.length_replicate (a := (0 : UInt8))) (hp.fits_range hroom)
  have hp₁ := (hasPage_iff hch₁).mpr hp
  obtain ⟨m₂, hstore₂, hch₂, hload₂⟩ := store_spec hdata
    (hp₁.fits_range (a := 8) (by omega))
  refine ⟨m₂, ?_, ?_, ?_⟩
  · rw [updateInPageMaxDist, hp.page?_eq]
    refine (congrArg (· >>= _) hstore₁).trans ?_
    exact (memcpy_eq_store hdata).trans hstore₂
  · exact (hch₁.trans hch₂).mono (Set.union_subset subset_rfl radius_subset)
  · rw [((hasPage_iff hch₂).mpr hp₁).getMaxDistAt_eq, hload₂]

/-! ## The frame law -/

/-- The id and the vector of a slot are read as before. -/
structure SameSlot (l : PageLayout) (m m' : Memory UInt8) (f p i : Nat) : Prop where
  id : l.getVectorId m' f p i = l.getVectorId m f p i
  vector : l.getVector m' f p i = l.getVector m f p i

/-- The parts of a page and what its writes change. -/
structure PageFrame (l : PageLayout) (m : Memory UInt8) (f p : Nat) : Prop where
  /-- The cells of a slot lie in its page, apart from each other, -/
  inside : ∀ i < l.maxNumVectorsPerPage,
    l.slotCells f p i ⊆ l.pageBytes f p ∧ Disjoint (l.idCell f p i) (l.vectorCell f p i)
  /-- from the header of every page -/
  header : ∀ i < l.maxNumVectorsPerPage, ∀ f' p',
    Disjoint (l.slotCells f p i) (l.header f' p')
  /-- and from the cells of every other slot of every page. -/
  slots : ∀ i < l.maxNumVectorsPerPage, ∀ f' p', ∀ i' < l.maxNumVectorsPerPage,
    (f', p', i') ≠ (f, p, i) → Disjoint (l.slotCells f p i) (l.slotCells f' p' i')
  /-- A placed vector is read back, and all else is read as before. -/
  place : ∀ i < l.maxNumVectorsPerPage, ∀ (newId : UInt64) (newVector : List UInt8),
    newVector.length = l.elementSize * l.dim →
      ∃ m', l.placeNewVectorAt m newId newVector l.elementSize l.dim f p i = some m' ∧
        m.ChangesOnly m' (l.slotCells f p i) ∧
        l.getVectorId m' f p i = some newId ∧ l.getVector m' f p i = some newVector ∧
        (∀ f' p', ∀ i' < l.maxNumVectorsPerPage, (f', p', i') ≠ (f, p, i) →
          l.SameSlot m m' f' p' i') ∧
        ∀ f' p', l.getNVectorsOf m' f' p' = l.getNVectorsOf m f' p' ∧
          l.getMaxDistAt m' f' p' = l.getMaxDistAt m f' p'
  /-- A new radius is read back, and all else is read as before. -/
  maxDist : ∀ data : List UInt8, data.length = l.elementSize →
    ∃ m', l.updateInPageMaxDist m f p data l.elementSize = some m' ∧
      m.ChangesOnly m' (l.maxDistCell f p) ∧ l.getMaxDistAt m' f p = some data ∧
      (∀ f' p', (f', p') ≠ (f, p) → l.getMaxDistAt m' f' p' = l.getMaxDistAt m f' p') ∧
      (∀ f' p', l.getNVectorsOf m' f' p' = l.getNVectorsOf m f' p') ∧
      ∀ f' p', ∀ i < l.maxNumVectorsPerPage, l.SameSlot m m' f' p' i
  /-- A new number of vectors is read back, and all else is read as before. -/
  nVectors : ∀ amount : Int64, ∃ n m', l.getNVectorsOf m f p = some n ∧
    l.updateNumberOfVectorsAt m f p amount = some m' ∧
      m.ChangesOnly m' (l.nVectorsCell f p) ∧
      l.getNVectorsOf m' f p = some (n + amount.toUInt64) ∧
      (∀ f' p', (f', p') ≠ (f, p) → l.getNVectorsOf m' f' p' = l.getNVectorsOf m f' p') ∧
      (∀ f' p', l.getMaxDistAt m' f' p' = l.getMaxDistAt m f' p') ∧
      ∀ f' p', ∀ i < l.maxNumVectorsPerPage, l.SameSlot m m' f' p' i

theorem SameSlot.of_changesOnly (h : m.ChangesOnly m' S) (hS : Disjoint (l.slotCells f p i) S) :
    l.SameSlot m m' f p i :=
  ⟨getVectorId_congr h (hS.mono_left Set.subset_union_left),
    getVector_congr h (hS.mono_left Set.subset_union_right)⟩

/-- A write to a header is not seen in any slot. -/
theorem SameSlot.of_header (h : m.ChangesOnly m' S) (hS : S ⊆ l.header f p)
    (hi : i < l.maxNumVectorsPerPage) (f' p' : Nat) : l.SameSlot m m' f' p' i :=
  of_changesOnly h ((disjoint_slotCells_header hi).mono_right hS)

/-- Different pages have different headers. -/
theorem disjoint_header (h : (f', p') ≠ (f, p)) : Disjoint (l.header f' p') (l.header f p) :=
  (disjoint_pageBytes h).mono header_subset header_subset

theorem disjoint_nVectorsCell_maxDistCell :
    Disjoint (l.nVectorsCell f' p') (l.maxDistCell f p) := by
  by_cases h : (f', p') = (f, p)
  · cases h
    exact disjoint_in_page (a := 0) (Or.inl le_rfl)
  · exact (disjoint_header h).mono nVectorsCell_subset maxDistCell_subset

/-- For every page size with room for a header, every dimension and both types of numbers,
the frame law holds of every page of every file. -/
theorem pageFrame (l : PageLayout) {m : Memory UInt8} {f p : Nat} (hp : l.HasPage m f p) :
    l.PageFrame m f p where
  inside i hi := ⟨slotCells_subset hi, disjoint_idCell_vectorCell hi⟩
  header i hi f' p' := disjoint_slotCells_header hi
  slots i hi f' p' i' hi' hne := (disjoint_slotCells hi hi' hne).symm
  place i hi newId newVector hv := by
    obtain ⟨m', hm', hch, hid, hvector⟩ := placeNewVectorAt_spec hp hi newId hv
    refine ⟨m', hm', hch, hid, hvector, ?_, ?_⟩
    · intro f' p' i' hi' hne
      exact .of_changesOnly hch (disjoint_slotCells hi hi' hne)
    · intro f' p'
      have hheader : Disjoint (l.header f' p') (l.slotCells f p i) :=
        (disjoint_slotCells_header hi).symm
      exact ⟨getNVectorsOf_congr hch (hheader.mono_left nVectorsCell_subset),
        getMaxDistAt_congr hch (hheader.mono_left maxDistCell_subset)⟩
  maxDist data hdata := by
    obtain ⟨m', hm', hch, hread⟩ := updateInPageMaxDist_spec hp hdata
    refine ⟨m', hm', hch, hread, ?_, ?_, ?_⟩
    · intro f' p' hne
      exact getMaxDistAt_congr hch
        ((disjoint_header hne).mono maxDistCell_subset maxDistCell_subset)
    · intro f' p'
      exact getNVectorsOf_congr hch disjoint_nVectorsCell_maxDistCell
    · intro f' p' i hi
      exact .of_header hch maxDistCell_subset hi f' p'
  nVectors amount := by
    obtain ⟨n, m', hn, hm', hch, hread⟩ := updateNumberOfVectorsAt_spec hp amount
    refine ⟨n, m', hn, hm', hch, hread, ?_, ?_, ?_⟩
    · intro f' p' hne
      exact getNVectorsOf_congr hch
        ((disjoint_header hne).mono nVectorsCell_subset nVectorsCell_subset)
    · intro f' p'
      exact getMaxDistAt_congr hch disjoint_nVectorsCell_maxDistCell.symm
    · intro f' p' i hi
      exact .of_header hch nVectorsCell_subset hi f' p'

/-- Pages of 64 bytes with three slots for vectors of two numbers. -/
def threeSlots : PageLayout := ⟨64, .float, 2, by decide⟩

theorem pageFrame_threeSlots : threeSlots.maxNumVectorsPerPage = 3 ∧
    threeSlots.PageFrame [List.replicate 200 0, List.replicate 200 7] 1 2 :=
  ⟨by decide, pageFrame threeSlots ⟨_, rfl, by rw [List.length_replicate]; decide⟩⟩

end PageLayout

end Spheres
