import Spheres.Library.Follows
import Spheres.Library.ListUpdate
import Spheres.Storage.PageBytes

/-!
# Views of the vectors of a mapped page

The loops over the vectors of a page do not go through `get_vector`: they read the mapped
bytes through an `ArrayView`, a pointer with two sizes whose rows are spans. On bytes that
stand for a page they find what the operations on pages find: the same victim
(`Represents.findVictimSingleThreaded`) and the same new radius
(`Represents.calculateNewMaxDist`), and no span lies outside the page.
-/

namespace Spheres

open Library (Memory)
open Library.Memory (Address load add_add)

/-- The numbers of a vector of `dim` numbers. -/
structure Span (R : Type*) (dim : Nat) where
  numbers : List R
  length_eq : numbers.length = dim
  deriving DecidableEq

/-- What `resize` puts into new cells. -/
instance {R : Type*} [Zero R] {dim : Nat} : Inhabited (Span R dim) :=
  ⟨⟨List.replicate dim 0, List.length_replicate⟩⟩

/-- A function of two spans as a function of two vectors. -/
def Span.lift {R : Type*} {dim : Nat} (distFunc : List R → List R → R) (x y : Span R dim) : R :=
  distFunc x.numbers y.numbers

/-- `ArrayView`, with `none` for the null pointer. -/
structure ArrayView where
  data : Option Address
  s1 : Nat
  s2 : Nat
  size : Nat

namespace ArrayView

/-- `ArrayView()`. -/
def null : ArrayView := ⟨none, 0, 0, 0⟩

/-- The constructor with two sizes. -/
def ofSizes (data : Address) (s1 s2 : Nat) : ArrayView := ⟨some data, s1, s2, s1 * s2⟩

/-- `operator[]`: where the span begins and how many numbers it has, or the empty span. -/
def span (view : ArrayView) (elementSize index : Nat) : Option (Address × Nat) :=
  if index ≥ view.s1 then none
  else view.data.map fun data => (data + index * view.s2 * elementSize, view.s2)

/-- `reshape_array`, which throws when the sizes do not match. -/
def reshapeArray (array : ArrayView) (s1 s2 : Nat) : Option ArrayView :=
  if s1 * s2 ≠ array.size then none else some { array with s1, s2 }

end ArrayView

/-- `Storage`, with the bytes of its mapped files. The sizes of a page are those of the
layout. -/
structure MappedStorage where
  files : Memory UInt8
  nFiles : Nat
  fileSize : Nat
  nPages : Nat

namespace PageLayout

variable {R : Type} [Zero R]

/-- How the bytes of a mapped file are read and written as numbers. -/
structure NumberFormat (l : PageLayout) (R : Type) [Zero R] where
  bytes : R → List UInt8
  number : List UInt8 → R
  length_bytes : ∀ d, (bytes d).length = l.elementSize
  number_bytes : ∀ d, number (bytes d) = d
  bytes_zero : bytes 0 = List.replicate l.elementSize 0

/-- `get_array_view_of_page`. -/
def getArrayViewOfPage (l : PageLayout) (s : MappedStorage) (fileIndex pageIndex : Nat) :
    Option ArrayView :=
  if s.files.isEmpty then some .null
  else if fileIndex ≥ s.files.length ∨ pageIndex ≥ s.nPages / s.nFiles then some .null
  else do
    let page ← l.page? s.files fileIndex pageIndex
    let nVectors ← l.getNVectorsOf s.files fileIndex pageIndex
    if nVectors = 0 then some .null
    else some (.ofSizes (page.pageAddr + l.vectorOffset) nVectors.toNat l.dim)

namespace NumberFormat

variable {l : PageLayout} (φ : l.NumberFormat R)

/-- The bytes of several numbers, one behind the other. -/
def bytesOf (numbers : List R) : List UInt8 := numbers.flatMap φ.bytes

/-- The numbers that consecutive bytes hold. -/
def numbersOf (count : Nat) (bytes : List UInt8) : List R :=
  (List.range count).map fun i => φ.number (Library.Rows.row l.elementSize i bytes)

theorem rows_bytes (numbers : List R) : ∀ row ∈ numbers.map φ.bytes, row.length = l.elementSize := by
  intro row hrow
  obtain ⟨d, -, rfl⟩ := List.mem_map.mp hrow
  exact φ.length_bytes d

theorem length_bytesOf (numbers : List R) :
    (φ.bytesOf numbers).length = l.elementSize * numbers.length := by
  rw [bytesOf, List.flatMap_def, Library.Rows.length_flatten_of_width (φ.rows_bytes numbers),
    List.length_map, Nat.mul_comm]

theorem numbersOf_bytesOf (numbers : List R) :
    φ.numbersOf numbers.length (φ.bytesOf numbers) = numbers := by
  apply List.ext_getElem?
  intro i
  rw [numbersOf, List.getElem?_map]
  by_cases hi : i < numbers.length
  · have hrow : (numbers.map φ.bytes)[i]? = some (φ.bytes numbers[i]) := by
      rw [List.getElem?_map, List.getElem?_eq_getElem hi, Option.map_some]
    rw [List.getElem?_range hi, Option.map_some, List.getElem?_eq_getElem hi, bytesOf,
      List.flatMap_def, Library.Rows.row_flatten (φ.rows_bytes numbers) hrow, φ.number_bytes]
  · have hle : numbers.length ≤ i := Nat.not_lt.mp hi
    rw [List.getElem?_eq_none hle, List.getElem?_eq_none (by simpa using hle), Option.map_none]

/-- How vectors and radii are stored. -/
def encoding : l.Encoding (Span R l.dim) R where
  vector v := φ.bytesOf v.numbers
  number := φ.bytes
  length_vector v := by rw [φ.length_bytesOf, v.length_eq]
  length_number := φ.length_bytes

/-- The numbers of a span. -/
def readSpan (m : Memory UInt8) : Option (Address × Nat) → Option (List R)
  | none => some []
  | some (data, count) => (load m data (count * l.elementSize)).map (φ.numbersOf count)

/-- `get_max_dist_at`. -/
def getMaxDistAt (s : MappedStorage) (fileIndex pageIndex : Nat) : Option R :=
  (l.getMaxDistAt s.files fileIndex pageIndex).map φ.number

/-- `get_vector`, the numbers of the span. -/
def getVector (s : MappedStorage) (fileIndex pageIndex vectorIndex : Nat) : Option (List R) :=
  (l.getVector s.files fileIndex pageIndex vectorIndex).map (φ.numbersOf l.dim)

/-- `buffer_victim`: a copy of the numbers of a slot. -/
def bufferVictim (s : MappedStorage) (fileIndex pageIndex victimIndex : Nat) :
    Option (List R) := do
  let page ← l.page? s.files fileIndex pageIndex
  let victim ← load s.files
    (page.pageAddr + l.vectorOffset + victimIndex * l.dim * l.elementSize) (l.dim * l.elementSize)
  some (φ.numbersOf l.dim victim)

/-- `find_victim_single_threaded`. -/
def findVictimSingleThreaded [DecidableEq R] (distFunc : List R → List R → R) (s : MappedStorage)
    (fileIndex pageIndex : Nat) : Option Nat := do
  let maxDist ← φ.getMaxDistAt s fileIndex pageIndex
  let nVectors ← l.getNVectorsOf s.files fileIndex pageIndex
  let view ← l.getArrayViewOfPage s fileIndex pageIndex
  let view ← view.reshapeArray nVectors.toNat l.dim
  let anchor ← φ.readSpan s.files (view.span l.elementSize 0)
  let found ← (List.range' 1 (nVectors.toNat - 1)).findM? fun i => do
    let v ← φ.readSpan s.files (view.span l.elementSize i)
    some (decide (maxDist = distFunc v anchor))
  some (found.getD nVectors.toNat)

/-- `calculate_new_max_dist`. -/
def calculateNewMaxDist [LT R] [DecidableLT R] (distFunc : List R → List R → R)
    (s : MappedStorage) (fileIndex pageIndex : Nat) : Option R := do
  let nVectors ← l.getNVectorsOf s.files fileIndex pageIndex
  let view ← l.getArrayViewOfPage s fileIndex pageIndex
  let view ← view.reshapeArray nVectors.toNat l.dim
  let anchor ← φ.readSpan s.files (view.span l.elementSize 0)
  (List.range' 1 (nVectors.toNat - 1)).foldlM (fun maxDist i => do
    let v ← φ.readSpan s.files (view.span l.elementSize i)
    let dist := distFunc v anchor
    some (if maxDist < dist then dist else maxDist)) 0

/-! ## Bytes that stand for a page -/

section Read

variable {φ} {s : MappedStorage} {f p i : Nat} {page : Page (Span R l.dim) R}

/-- The number of vectors is read as it is. -/
theorem toNat_nVectors (h : φ.encoding.Represents s.files f p page) (hsize : l.pageSize < 2 ^ 64) :
    (UInt64.ofNat page.nVectors).toNat = page.nVectors :=
  UInt64.toNat_ofNat_of_lt' (h.room.trans_lt (maxNumVectorsPerPage_le.trans_lt hsize))

/-- One vector more can still be counted. -/
theorem toNat_nVectors_add_one (h : φ.encoding.Represents s.files f p page)
    (hsize : l.pageSize < 2 ^ 64) : (UInt64.ofNat page.nVectors + 1).toNat = page.nVectors + 1 := by
  have hroom := h.room
  have hoff := l.vectorOffset_le
  rw [vectorOffset, idOffset] at hoff
  have hlt : page.nVectors + 1 < 2 ^ 64 := by omega
  exact (congrArg UInt64.toNat (UInt64.ofNat_add page.nVectors 1).symm).trans
    (UInt64.toNat_ofNat_of_lt' hlt)

theorem getMaxDistAt_eq (h : φ.encoding.Represents s.files f p page) :
    φ.getMaxDistAt s f p = some page.maxDist := by
  rw [getMaxDistAt, h.maxDist, Option.map_some]
  exact congrArg some (φ.number_bytes page.maxDist)

/-- The bytes of a slot are the bytes of its vector. -/
theorem load_slot (h : φ.encoding.Represents s.files f p page) {v : Nat × Span R l.dim}
    (hv : page.slots[i]? = some v) :
    load s.files (l.pageStart f p + l.vectorOffset + i * l.dim * l.elementSize)
      (l.dim * l.elementSize) = some (φ.bytesOf v.2.numbers) := by
  rw [add_add, slot_offset, Nat.mul_comm l.dim, ← h.hasPage.getVector_eq]
  exact (h.slots i v hv).2

theorem numbersOf_vector (v : Span R l.dim) : φ.numbersOf l.dim (φ.bytesOf v.numbers) = v.numbers := by
  have hnumbers := φ.numbersOf_bytesOf v.numbers
  rwa [v.length_eq] at hnumbers

theorem getVector_eq (h : φ.encoding.Represents s.files f p page) {v : Nat × Span R l.dim}
    (hv : page.slots[i]? = some v) : φ.getVector s f p i = some v.2.numbers := by
  rw [getVector, (h.slots i v hv).2]
  exact congrArg some (numbersOf_vector v.2)

theorem bufferVictim_eq (h : φ.encoding.Represents s.files f p page) {v : Nat × Span R l.dim}
    (hv : page.slots[i]? = some v) : φ.bufferVictim s f p i = some v.2.numbers := by
  rw [bufferVictim, h.hasPage.page?_eq]
  refine (congrArg (· >>= _) (load_slot h hv)).trans ?_
  exact congrArg some (numbersOf_vector v.2)

/-- The view of a page, with the shape that the loops give it, shows the vectors of the
page; without vectors its first row is the empty span. -/
theorem exists_view (h : φ.encoding.Represents s.files f p page) (hsize : l.pageSize < 2 ^ 64)
    (hp : p < s.nPages / s.nFiles) :
    ∃ view view', l.getArrayViewOfPage s f p = some view ∧
      view.reshapeArray page.nVectors l.dim = some view' ∧
      (∀ i v, page.slots[i]? = some v →
        φ.readSpan s.files (view'.span l.elementSize i) = some v.2.numbers) ∧
      (page.slots = [] → φ.readSpan s.files (view'.span l.elementSize 0) = some []) := by
  obtain ⟨file, hfile, -⟩ := h.hasPage
  have hf : f < s.files.length := (List.getElem?_eq_some_iff.mp hfile).1
  have hne : s.files.isEmpty = false := by
    rw [List.isEmpty_eq_false_iff]
    exact List.ne_nil_of_length_pos (Nat.zero_lt_of_lt hf)
  have hn := toNat_nVectors h hsize
  have hview : l.getArrayViewOfPage s f p = if UInt64.ofNat page.nVectors = 0 then some .null
      else some (.ofSizes (l.pageStart f p + l.vectorOffset) page.nVectors l.dim) := by
    rw [getArrayViewOfPage, hne, if_neg Bool.false_ne_true, if_neg (by omega), h.hasPage.page?_eq,
      h.nVectors]
    show (if _ then _ else some (ArrayView.ofSizes _ (UInt64.ofNat page.nVectors).toNat _)) = _
    rw [hn]
    rfl
  by_cases hempty : page.slots = []
  · have hzero : page.nVectors = 0 := congrArg List.length hempty
    rw [hzero] at hview ⊢
    refine ⟨_, ⟨none, 0, l.dim, 0⟩, hview.trans (if_pos rfl), ?_, ?_, fun _ => rfl⟩
    · rw [ArrayView.reshapeArray, if_neg]
      · rfl
      · simp [ArrayView.null]
    · intro i v hv
      rw [hempty] at hv
      cases hv
  · have hpos : UInt64.ofNat page.nVectors ≠ 0 := by
      intro hzero
      rw [hzero] at hn
      exact hempty (List.eq_nil_of_length_eq_zero hn.symm)
    refine ⟨_, .ofSizes (l.pageStart f p + l.vectorOffset) page.nVectors l.dim,
      hview.trans (if_neg hpos), if_neg (not_not.mpr rfl), ?_, fun he => absurd he hempty⟩
    intro i v hv
    have hi : i < page.nVectors := (List.getElem?_eq_some_iff.mp hv).1
    have hspan : (ArrayView.ofSizes (l.pageStart f p + l.vectorOffset) page.nVectors l.dim).span
        l.elementSize i =
          some (l.pageStart f p + l.vectorOffset + i * l.dim * l.elementSize, l.dim) :=
      if_neg (Nat.not_le.mpr hi)
    rw [hspan, readSpan, load_slot h hv]
    exact congrArg some (numbersOf_vector v.2)

variable {distFunc : List R → List R → R}

/-- The search for a victim on bytes finds the victim of the page. -/
theorem findVictimSingleThreaded_eq [DecidableEq R] (h : φ.encoding.Represents s.files f p page)
    (hsize : l.pageSize < 2 ^ 64) (hp : p < s.nPages / s.nFiles) :
    φ.findVictimSingleThreaded distFunc s f p =
      some (page.findVictimSingleThreaded (Span.lift distFunc)) := by
  obtain ⟨view, view', hview, hreshape, hrows, hnone⟩ := exists_view h hsize hp
  have hn := toNat_nVectors h hsize
  rw [findVictimSingleThreaded, getMaxDistAt_eq h, h.nVectors, hview]
  simp only [Option.bind_eq_bind, Option.bind_some, hn, hreshape]
  cases hslots : page.slots with
  | nil =>
    have hzero : page.nVectors = 0 := congrArg List.length hslots
    rw [hnone hslots, hzero, Page.findVictimSingleThreaded, hslots]
    rfl
  | cons a rest =>
    have hcount : page.nVectors = rest.length + 1 := congrArg List.length hslots
    have hanchor := hrows 0 a (by rw [hslots]; rfl)
    obtain ⟨found, hfound, hindex⟩ := Library.ListUpdate.findM?_range' (l := rest) (k := 1)
      (p := fun i => (φ.readSpan s.files (view'.span l.elementSize i)).bind fun v =>
        some (decide (page.maxDist = distFunc v a.2.numbers)))
      (f := fun v => decide (page.maxDist = Span.lift distFunc v.2 a.2)) (by
        intro j v hv
        rw [hrows (1 + j) v (by rw [hslots, Nat.add_comm, List.getElem?_cons_succ, hv])]
        rfl)
    rw [hanchor, hcount, Nat.add_sub_cancel, Option.bind_some, hfound, Option.bind_some,
      Nat.add_comm rest.length, hindex, Page.findVictimSingleThreaded, hslots, Nat.add_comm 1]

/-- The new radius on bytes is the new radius of the page. -/
theorem calculateNewMaxDist_eq [LT R] [DecidableLT R] (h : φ.encoding.Represents s.files f p page)
    (hsize : l.pageSize < 2 ^ 64) (hp : p < s.nPages / s.nFiles) :
    φ.calculateNewMaxDist distFunc s f p =
      some (page.calculateNewMaxDist (Span.lift distFunc)) := by
  obtain ⟨view, view', hview, hreshape, hrows, hnone⟩ := exists_view h hsize hp
  have hn := toNat_nVectors h hsize
  rw [calculateNewMaxDist, h.nVectors, hview]
  simp only [Option.bind_eq_bind, Option.bind_some, hn, hreshape]
  cases hslots : page.slots with
  | nil =>
    have hzero : page.nVectors = 0 := congrArg List.length hslots
    rw [hnone hslots, hzero, Page.calculateNewMaxDist, hslots]
    rfl
  | cons a rest =>
    have hcount : page.nVectors = rest.length + 1 := congrArg List.length hslots
    rw [hrows 0 a (by rw [hslots]; rfl), hcount, Nat.add_sub_cancel, Option.bind_some,
      Page.calculateNewMaxDist, hslots]
    refine Library.ListUpdate.foldlM_range' (fun j v m hv => ?_) 0
    rw [hrows (1 + j) v (by rw [hslots, Nat.add_comm, List.getElem?_cons_succ, hv])]
    rfl

end Read

end NumberFormat

end PageLayout

end Spheres
