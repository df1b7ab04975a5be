import Spheres.Storage.PageLayout

/-!
# Bytes that stand for pages

The other modules work on pages that are a radius and a list of slots. Here the bytes of a
mapped page stand for such a page, as far as its number of vectors goes, and the writes of
`PageLayout` carry out the operations on pages: each of them succeeds and leaves the bytes
of the page that the operation gives. As no write is seen outside its page, the same holds
of a whole storage and of every run of writes that puts no more vectors into a page than it
has room for (`simulates_createStorage`).
-/

namespace Spheres

open Library (Memory)
open Library.Memory (Address ChangesOnly)

namespace PageLayout

/-- `append_new_vector`: the vector goes behind the last one. -/
def appendNewVector (l : PageLayout) (m : Memory UInt8) (newId : UInt64)
    (newVector : List UInt8) (fileIndex pageIndex : Nat) : Option (Memory UInt8) := do
  let n ← l.getNVectorsOf m fileIndex pageIndex
  let m ← l.placeNewVectorAt m newId newVector l.elementSize (newVector.length / l.elementSize)
    fileIndex pageIndex n.toNat
  l.updateNumberOfVectorsAt m fileIndex pageIndex 1

/-- The bytes of vectors and numbers, as many as the layout has room for. -/
structure Encoding (l : PageLayout) (V R : Type*) where
  vector : V → List UInt8
  number : R → List UInt8
  length_vector : ∀ v, (vector v).length = l.elementSize * l.dim
  length_number : ∀ d, (number d).length = l.elementSize

variable {V R : Type*} {l : PageLayout} {m m' : Memory UInt8} {f f' p p' i : Nat}
  {S : Set Address} {page : Page V R}

theorem elementSize_pos : 0 < l.elementSize := by
  rw [elementSize]
  cases l.dtype with
  | float => decide
  | double => decide

theorem maxNumVectorsPerPage_le : l.maxNumVectorsPerPage ≤ l.pageSize := by
  have hoff := l.vectorOffset_le
  rw [vectorOffset] at hoff
  omega

namespace Encoding

/-- The bytes of a mapped page stand for a page. -/
structure Represents (e : l.Encoding V R) (m : Memory UInt8) (fileIndex pageIndex : Nat)
    (page : Page V R) : Prop where
  hasPage : l.HasPage m fileIndex pageIndex
  room : page.nVectors ≤ l.maxNumVectorsPerPage
  nVectors : l.getNVectorsOf m fileIndex pageIndex = some (.ofNat page.nVectors)
  maxDist : l.getMaxDistAt m fileIndex pageIndex = some (e.number page.maxDist)
  slots : ∀ i s, page.slots[i]? = some s →
    l.getVectorId m fileIndex pageIndex i = some (.ofNat s.1) ∧
      l.getVector m fileIndex pageIndex i = some (e.vector s.2)

variable {e : l.Encoding V R}

theorem Represents.lt_capacity (h : e.Represents m f p page) {s : Nat × V}
    (hs : page.slots[i]? = some s) : i < l.maxNumVectorsPerPage :=
  (List.getElem?_eq_some_iff.mp hs).1.trans_le h.room

/-- Slots that are read as before still stand for the same. -/
theorem Represents.slots_of_same (h : e.Represents m f p page)
    (hsame : ∀ i < l.maxNumVectorsPerPage, l.SameSlot m m' f p i) (i : Nat) (s : Nat × V)
    (hs : page.slots[i]? = some s) :
    l.getVectorId m' f p i = some (.ofNat s.1) ∧ l.getVector m' f p i = some (e.vector s.2) := by
  obtain ⟨hid, hvector⟩ := h.slots i s hs
  obtain ⟨hid', hvector'⟩ := hsame i (h.lt_capacity hs)
  exact ⟨hid'.trans hid, hvector'.trans hvector⟩

/-- A write to one page is not seen in the others. -/
theorem Represents.of_changesOnly (h : e.Represents m f' p' page) (hch : m.ChangesOnly m' S)
    (hS : S ⊆ l.pageBytes f p) (hne : (f', p') ≠ (f, p)) : e.Represents m' f' p' page := by
  have hapart : Disjoint (l.pageBytes f' p') S := (disjoint_pageBytes hne).mono_right hS
  have hheader : Disjoint (l.header f' p') S := hapart.mono_left header_subset
  exact
    { hasPage := (hasPage_iff hch).mpr h.hasPage
      room := h.room
      nVectors := (getNVectorsOf_congr hch (hheader.mono_left nVectorsCell_subset)).trans
        h.nVectors
      maxDist := (getMaxDistAt_congr hch (hheader.mono_left maxDistCell_subset)).trans h.maxDist
      slots := h.slots_of_same fun i hi =>
        .of_changesOnly hch (hapart.mono_left (slotCells_subset hi)) }

/-- After a vector has been placed in slot `i`, the slots stand for a list that has it there
and the old slots elsewhere. -/
theorem Represents.slots_of_placed (h : e.Represents m f p page)
    (hi : i < l.maxNumVectorsPerPage) (hch : m.ChangesOnly m' (l.slotCells f p i))
    {newId : Nat} {newVector : V} (hid : l.getVectorId m' f p i = some (.ofNat newId))
    (hvector : l.getVector m' f p i = some (e.vector newVector)) {slots' : List (Nat × V)}
    (hself : slots'[i]? = some (newId, newVector))
    (hother : ∀ j, j ≠ i → slots'[j]? = page.slots[j]?) (j : Nat) (s : Nat × V)
    (hs : slots'[j]? = some s) :
    l.getVectorId m' f p j = some (.ofNat s.1) ∧ l.getVector m' f p j = some (e.vector s.2) := by
  by_cases hj : j = i
  · subst hj
    obtain rfl := Option.some.inj (hself.symm.trans hs)
    exact ⟨hid, hvector⟩
  · rw [hother j hj] at hs
    obtain ⟨hid', hvector'⟩ := h.slots j s hs
    have hne : (f, p, j) ≠ (f, p, i) := fun he => hj (congrArg (·.2.2) he)
    obtain ⟨hsameId, hsameVector⟩ : l.SameSlot m m' f p j :=
      .of_changesOnly hch (disjoint_slotCells hi (h.lt_capacity hs) hne)
    exact ⟨hsameId.trans hid', hsameVector.trans hvector'⟩

/-- `update_in_page_max_dist` sets the radius. -/
theorem Represents.setMaxDist (h : e.Represents m f p page) (d : R) :
    ∃ m', l.updateInPageMaxDist m f p (e.number d) l.elementSize = some m' ∧
      m.ChangesOnly m' (l.pageBytes f p) ∧ e.Represents m' f p (page.setMaxDist d) := by
  obtain ⟨m', hm', hch, hread⟩ := updateInPageMaxDist_spec h.hasPage (e.length_number d)
  refine ⟨m', hm', hch.mono (maxDistCell_subset.trans header_subset), ?_⟩
  exact
    { hasPage := (hasPage_iff hch).mpr h.hasPage
      room := h.room
      nVectors := (getNVectorsOf_congr hch disjoint_nVectorsCell_maxDistCell).trans h.nVectors
      maxDist := hread
      slots := h.slots_of_same fun i hi => .of_header hch maxDistCell_subset hi f p }

/-- `place_new_vector_at` on an occupied slot replaces it. -/
theorem Represents.placeAt (h : e.Represents m f p page) (newId : Nat) (newVector : V)
    (hi : i < page.nVectors) :
    ∃ m', l.placeNewVectorAt m (.ofNat newId) (e.vector newVector) l.elementSize l.dim f p i =
        some m' ∧
      m.ChangesOnly m' (l.pageBytes f p) ∧
      e.Represents m' f p (page.placeAt newId newVector i) := by
  have hicap := hi.trans_le h.room
  obtain ⟨m', hm', hch, hid, hvector⟩ :=
    placeNewVectorAt_spec h.hasPage hicap (.ofNat newId) (e.length_vector newVector)
  have hheader : Disjoint (l.header f p) (l.slotCells f p i) :=
    (disjoint_slotCells_header hicap).symm
  have hlen : (page.placeAt newId newVector i).nVectors = page.nVectors := List.length_set
  refine ⟨m', hm', hch.mono (slotCells_subset hicap), ?_⟩
  exact
    { hasPage := (hasPage_iff hch).mpr h.hasPage
      room := hlen ▸ h.room
      nVectors := by
        rw [hlen, getNVectorsOf_congr hch (hheader.mono_left nVectorsCell_subset), h.nVectors]
      maxDist := (getMaxDistAt_congr hch (hheader.mono_left maxDistCell_subset)).trans h.maxDist
      slots := h.slots_of_placed hicap hch hid hvector (List.getElem?_set_self hi)
        fun j hj => List.getElem?_set_ne (Ne.symm hj) }

/-- `append_new_vector` on a page that is not full. -/
theorem Represents.append (h : e.Represents m f p page) (newId : Nat) (newVector : V)
    (hsize : l.pageSize < 2 ^ 64) (hroom : page.nVectors < l.maxNumVectorsPerPage) :
    ∃ m', l.appendNewVector m (.ofNat newId) (e.vector newVector) f p = some m' ∧
      m.ChangesOnly m' (l.pageBytes f p) ∧
      e.Represents m' f p (page.append newId newVector) := by
  have hv := e.length_vector newVector
  have hdim : (e.vector newVector).length / l.elementSize = l.dim := by
    rw [hv, Nat.mul_div_cancel_left _ elementSize_pos]
  have hlt : page.nVectors < 2 ^ 64 := hroom.trans_le (maxNumVectorsPerPage_le.trans hsize.le)
  have hn : (UInt64.ofNat page.nVectors).toNat = page.nVectors := UInt64.toNat_ofNat_of_lt' hlt
  obtain ⟨m₁, hm₁, hch₁, hid, hvector⟩ :=
    placeNewVectorAt_spec h.hasPage hroom (.ofNat newId) hv
  have hheader : Disjoint (l.header f p) (l.slotCells f p page.nVectors) :=
    (disjoint_slotCells_header hroom).symm
  have hn₁ : l.getNVectorsOf m₁ f p = some (.ofNat page.nVectors) :=
    (getNVectorsOf_congr hch₁ (hheader.mono_left nVectorsCell_subset)).trans h.nVectors
  have hp₁ := (hasPage_iff hch₁).mpr h.hasPage
  obtain ⟨n, m₂, hn', hm₂, hch₂, hread⟩ := updateNumberOfVectorsAt_spec hp₁ 1
  obtain rfl : UInt64.ofNat page.nVectors = n := Option.some.inj (hn₁.symm.trans hn')
  have hlen : (page.append newId newVector).nVectors = page.nVectors + 1 := by
    rw [Page.nVectors, Page.slots_append, List.length_append, List.length_singleton, Page.nVectors]
  refine ⟨m₂, ?_, ?_, ?_⟩
  · rw [appendNewVector, h.nVectors]
    show (l.placeNewVectorAt m _ _ _ _ f p _ >>= _) = _
    rw [hn, hdim, hm₁]
    exact hm₂
  · exact ((hch₁.mono (slotCells_subset hroom)).trans
      (hch₂.mono (nVectorsCell_subset.trans header_subset))).mono
        (Set.union_subset subset_rfl subset_rfl)
  · exact
      { hasPage := (hasPage_iff hch₂).mpr hp₁
        room := hlen ▸ hroom
        nVectors := by
          rw [hread, hlen, UInt64.ofNat_add]
          rfl
        maxDist := by
          rw [getMaxDistAt_congr hch₂ disjoint_nVectorsCell_maxDistCell.symm,
            getMaxDistAt_congr hch₁ (hheader.mono_left maxDistCell_subset)]
          exact h.maxDist
        slots := by
          intro j s hs
          have hj : j < (page.append newId newVector).nVectors :=
            (List.getElem?_eq_some_iff.mp hs).1
          obtain ⟨hsameId, hsameVector⟩ : l.SameSlot m₁ m₂ f p j :=
            .of_header hch₂ nVectorsCell_subset (by omega) f p
          rw [hsameId, hsameVector]
          exact h.slots_of_placed hroom hch₁ hid hvector List.getElem?_concat_length
            (fun k hk => Page.getElem?_slots_append_of_ne hk newId newVector) j s hs }

/-- What a page stands for depends on its own file only. -/
theorem Represents.of_file (h : e.Represents m f p page) (hfile : m'[f]? = m[f]?) :
    e.Represents m' f p page := by
  obtain ⟨file, hm, hlt⟩ := h.hasPage
  have hp : l.HasPage m' f p := ⟨file, hfile.trans hm, hlt⟩
  have hload : ∀ a n : Nat, m'.load (l.pageStart f p + a) n = m.load (l.pageStart f p + a) n :=
    fun a n => Library.Memory.load_of_object hfile
  exact
    { hasPage := hp
      room := h.room
      nVectors := by
        rw [← h.nVectors, hp.getNVectorsOf_eq, h.hasPage.getNVectorsOf_eq]
        exact congrArg (Option.map _) (hload 0 8)
      maxDist := by
        rw [← h.maxDist, hp.getMaxDistAt_eq, h.hasPage.getMaxDistAt_eq, hload]
      slots := by
        intro i s hs
        rw [hp.getVectorId_eq, hp.getVector_eq, hload, hload, ← h.hasPage.getVectorId_eq,
          ← h.hasPage.getVector_eq]
        exact h.slots i s hs }

/-- The pages of a new file are empty, its bytes being zero. -/
theorem represents_zeroed [Zero R] (hzero : e.number 0 = List.replicate l.elementSize 0)
    {fileSize : Nat} (hfile : m[f]? = some (List.replicate fileSize 0))
    (hlt : p < fileSize / l.pageSize) : e.Represents m f p Page.zeroed := by
  have hp : l.HasPage m f p := ⟨_, hfile, by rwa [List.length_replicate]⟩
  have hend : p * l.pageSize + l.pageSize ≤ fileSize := by
    have := Nat.mul_le_of_le_div _ _ _ (Nat.succ_le_of_lt hlt)
    rwa [Nat.succ_mul] at this
  have hroom : 8 + 8 ≤ l.pageSize := l.room
  have hsize : l.elementSize ≤ 8 := elementSize_le
  have hload : ∀ a n : Nat, a + n ≤ l.pageSize →
      m.load (l.pageStart f p + a) n = some (List.replicate n 0) := by
    intro a n hn
    refine Library.Memory.load_replicate hfile ?_
    change p * l.pageSize + a + n ≤ fileSize
    omega
  exact
    { hasPage := hp
      room := Nat.zero_le _
      nVectors := by
        rw [hp.getNVectorsOf_eq]
        exact congrArg (Option.map _) (hload 0 8 (by omega))
      maxDist := by
        rw [hp.getMaxDistAt_eq, hload 8 _ (by omega)]
        exact congrArg some hzero.symm
      slots := by
        intro i s hs
        exact absurd hs (by simp [Page.zeroed]) }

end Encoding

/-! ## Runs of a storage -/

/-- The writes to the files of a storage. -/
inductive StorageWrite (V R : Type*) where
  | createStorageFile
  | appendNewVector (newId : Nat) (newVector : V) (fileIndex pageIndex : Nat)
  | placeNewVectorAt (newId : Nat) (newVector : V) (fileIndex pageIndex vectorIndex : Nat)
  | updateInPageMaxDist (fileIndex pageIndex : Nat) (d : R)

namespace StorageWrite

def onPages [Zero R] (s : Storage V R) : StorageWrite V R → Option (Storage V R)
  | createStorageFile => some s.createStorageFile
  | appendNewVector newId newVector f p => s.modifyPage f p (.append newId newVector)
  | placeNewVectorAt newId newVector f p i => s.modifyPage f p (.placeAt newId newVector i)
  | updateInPageMaxDist f p d => s.modifyPage f p (.setMaxDist d)

def onBytes (e : l.Encoding V R) (fileSize : Nat) (m : Memory UInt8) :
    StorageWrite V R → Option (Memory UInt8)
  | createStorageFile => some (m ++ [List.replicate fileSize 0])
  | appendNewVector newId newVector f p =>
      l.appendNewVector m (.ofNat newId) (e.vector newVector) f p
  | placeNewVectorAt newId newVector f p i =>
      l.placeNewVectorAt m (.ofNat newId) (e.vector newVector) l.elementSize l.dim f p i
  | updateInPageMaxDist f p d => l.updateInPageMaxDist m f p (e.number d) l.elementSize

/-- A vector is appended to a page with room for it and placed in an occupied slot. -/
def Fits (capacity : Nat) (s : Storage V R) : StorageWrite V R → Prop
  | createStorageFile => True
  | appendNewVector _ _ f p => ∀ page ∈ s.page? f p, page.nVectors < capacity
  | placeNewVectorAt _ _ f p i => ∀ page ∈ s.page? f p, i < page.nVectors
  | updateInPageMaxDist _ _ _ => True

end StorageWrite

/-- Writes that each fit when their turn comes. -/
inductive Writes [Zero R] (capacity : Nat) :
    Storage V R → List (StorageWrite V R) → Storage V R → Prop
  | nil (s : Storage V R) : Writes capacity s [] s
  | cons {s s' s'' : Storage V R} {w : StorageWrite V R} {ws : List (StorageWrite V R)}
      (hfits : w.Fits capacity s) (hw : w.onPages s = some s') (hws : Writes capacity s' ws s'') :
      Writes capacity s (w :: ws) s''

/-- The mapped files stand for the pages of a storage. -/
structure Simulates (e : l.Encoding V R) (fileSize : Nat) (m : Memory UInt8)
    (s : Storage V R) : Prop where
  layout : l.LaysOut s
  fileSize : s.fileSize = fileSize
  files : m.length = s.files.length
  pages : ∀ f p page, s.page? f p = some page → e.Represents m f p page

variable {e : l.Encoding V R} {fileSize : Nat} {s s' : Storage V R}

/-- What a write makes of one page, it makes of the storage. -/
theorem Simulates.modifyPage (h : Simulates e fileSize m s) {g : Page V R → Page V R}
    (hs : s.modifyPage f p g = some s') {write : Option (Memory UInt8)}
    (hwrite : ∀ page ∈ s.page? f p, ∃ m', write = some m' ∧
      m.ChangesOnly m' (l.pageBytes f p) ∧ e.Represents m' f p (g page)) :
    ∃ m', write = some m' ∧ Simulates e fileSize m' s' := by
  obtain ⟨page, hpage, rfl⟩ := Option.map_eq_some_iff.mp hs
  obtain ⟨m', hm', hch, hrep⟩ := hwrite page hpage
  refine ⟨m', hm', h.layout.of_sameShape ⟨rfl, rfl, rfl, rfl, rfl, rfl, rfl⟩, h.fileSize, ?_, ?_⟩
  · have hlen := congrArg List.length hch.sizes
    rw [List.length_map, List.length_map] at hlen
    rw [hlen, h.files]
    exact (List.length_modify _ _ _).symm
  · intro f' p' page' hpage'
    rw [Storage.page?_writePage] at hpage'
    split at hpage'
    · rename_i he
      cases he
      rw [hpage] at hpage'
      obtain rfl := Option.some.inj hpage'
      exact hrep
    · rename_i hne
      exact (h.pages f' p' page' hpage').of_changesOnly hch subset_rfl hne

/-- A new file of zero bytes stands for the empty pages of a new file. -/
theorem Simulates.createStorageFile [Zero R] (h : Simulates e fileSize m s)
    (hzero : e.number 0 = List.replicate l.elementSize 0) :
    Simulates e fileSize (m ++ [List.replicate fileSize 0]) s.createStorageFile where
  layout := h.layout.of_sameShape (Storage.sameShape_createStorageFile s)
  fileSize := h.fileSize
  files := by
    rw [Storage.createStorageFile, List.length_append, List.length_append, h.files]
    rfl
  pages := by
    intro f p page hpage
    obtain ⟨file, hfile, hget⟩ := Option.bind_eq_some_iff.mp hpage
    rw [Storage.createStorageFile] at hfile
    by_cases hf : f < s.files.length
    · rw [List.getElem?_append_left hf] at hfile
      have hold : e.Represents m f p page :=
        h.pages f p page (Option.bind_eq_some_iff.mpr ⟨file, hfile, hget⟩)
      exact hold.of_file (List.getElem?_append_left (h.files ▸ hf))
    · have hlast : f = s.files.length := by
        have := (List.getElem?_eq_some_iff.mp hfile).1
        rw [List.length_append, List.length_singleton] at this
        omega
      subst hlast
      rw [List.getElem?_concat_length] at hfile
      obtain rfl := Option.some.inj hfile
      rw [Storage.pages_map_create, List.getElem?_replicate, h.layout.pageSize, h.fileSize] at hget
      split at hget
      · rename_i hlt
        obtain rfl := Option.some.inj hget
        exact Encoding.represents_zeroed hzero (h.files ▸ List.getElem?_concat_length) hlt
      · cases hget

/-- One write. -/
theorem Simulates.step [Zero R] (h : Simulates e fileSize m s) (hsize : l.pageSize < 2 ^ 64)
    (hzero : e.number 0 = List.replicate l.elementSize 0) {w : StorageWrite V R}
    (hfits : w.Fits l.maxNumVectorsPerPage s) (hw : w.onPages s = some s') :
    ∃ m', w.onBytes e fileSize m = some m' ∧ Simulates e fileSize m' s' := by
  cases w with
  | createStorageFile =>
    obtain rfl := Option.some.inj hw
    exact ⟨_, rfl, h.createStorageFile hzero⟩
  | appendNewVector newId newVector f p =>
    refine h.modifyPage hw fun page hpage => ?_
    exact (h.pages f p page hpage).append newId newVector hsize (hfits page hpage)
  | placeNewVectorAt newId newVector f p i =>
    refine h.modifyPage hw fun page hpage => ?_
    exact (h.pages f p page hpage).placeAt newId newVector (hfits page hpage)
  | updateInPageMaxDist f p d =>
    refine h.modifyPage hw fun page hpage => ?_
    exact (h.pages f p page hpage).setMaxDist d

/-- A whole run of writes: on the bytes none of them fails, and in the end they stand for the
pages. -/
theorem Simulates.run [Zero R] (hsize : l.pageSize < 2 ^ 64)
    (hzero : e.number 0 = List.replicate l.elementSize 0) {ws : List (StorageWrite V R)}
    (hws : Writes l.maxNumVectorsPerPage s ws s') {m : Memory UInt8}
    (h : Simulates e fileSize m s) :
    ∃ m', ws.foldlM (StorageWrite.onBytes e fileSize) m = some m' ∧
      Simulates e fileSize m' s' := by
  induction hws generalizing m with
  | nil s => exact ⟨m, rfl, h⟩
  | cons hfits hw _ ih =>
    obtain ⟨m₁, hm₁, h₁⟩ := h.step hsize hzero hfits hw
    obtain ⟨m', hm', h'⟩ := ih h₁
    exact ⟨m', by rw [List.foldlM_cons, hm₁]; exact hm', h'⟩

/-- The bytes of a new storage. -/
theorem Simulates.created [Zero R] (e : l.Encoding V R) (fileSize : Nat)
    (hzero : e.number 0 = List.replicate l.elementSize 0) :
    Simulates e fileSize [List.replicate fileSize 0]
      (Storage.createStorage l.pageSize fileSize l.dtype l.dim) := by
  let created : Storage V R := Storage.createStorage l.pageSize fileSize l.dtype l.dim
  have hnone : Simulates e fileSize [] { created with files := [], nFiles := 0, nPages := 0 } :=
    ⟨⟨rfl, rfl, rfl, rfl, rfl, rfl⟩, rfl, rfl, fun f p page hpage => by
      simp [Storage.page?] at hpage⟩
  exact hnone.createStorageFile hzero

/-- Blocks of bytes of a given length. -/
abbrev Block (n : Nat) := {bytes : List UInt8 // bytes.length = n}

instance (n : Nat) : Zero (Block n) := ⟨⟨List.replicate n 0, List.length_replicate⟩⟩

/-- Vectors and numbers that are their own bytes. -/
def plain (l : PageLayout) : l.Encoding (Block (l.elementSize * l.dim)) (Block l.elementSize) where
  vector v := v.1
  number d := d.1
  length_vector v := v.2
  length_number d := d.2

/-- A second file, two vectors on its first page, one of which is then replaced, and a radius. -/
def someWrites : List (StorageWrite (Block 8) (Block 4)) :=
  [.createStorageFile,
    .appendNewVector 7 ⟨[1, 2, 3, 4, 5, 6, 7, 8], rfl⟩ 1 0,
    .appendNewVector 8 ⟨[9, 9, 9, 9, 9, 9, 9, 9], rfl⟩ 1 0,
    .placeNewVectorAt 9 ⟨[0, 0, 0, 0, 0, 0, 0, 1], rfl⟩ 1 0 1,
    .updateInPageMaxDist 1 0 ⟨[5, 6, 7, 8], rfl⟩]

end PageLayout

end Spheres
