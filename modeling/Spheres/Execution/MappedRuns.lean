import Spheres.Execution.MappedInsert
import Spheres.Storage.AddressSpace

/-!
# Runs over mapped files

What a process does to the bytes of its files between their creation and the end: queries
fill the distance buffer, and vectors are inserted with whatever buffer the last query
left. After every run the vectors and ids that can be read from the bytes are the inserted
ones, each as often as it was inserted, and the next query and the next insertion succeed
(`Served.complete`). The one condition is on insertions that find no buffer: page 0 must
have room for them.
-/

namespace Spheres

open Execution Library

namespace PageLayout

variable {R : Type} {l : PageLayout}

namespace NumberFormat

section Functions

variable [Zero R] (φ : l.NumberFormat R)

/-- The ids and the vectors on all pages, as `get_vector_id` and `get_vector` read them. -/
def readVectors (s : MappedStorage) : Option (List (UInt64 × List R)) := do
  let pages ← (List.range s.nPages).mapM fun i => do
    let n ← l.getNVectorsOf s.files (l.calculateFileIndex s i) (l.calculatePageIndex s i)
    (List.range n.toNat).mapM fun j => do
      let id ← l.getVectorId s.files (l.calculateFileIndex s i) (l.calculatePageIndex s i) j
      let v ← φ.getVector s (l.calculateFileIndex s i) (l.calculatePageIndex s i) j
      some (id, v)
  some pages.flatten

/-- A process that has just created its first file. -/
def newCore (l : PageLayout) (fileSize : Nat) : MappedCore R where
  dbStorage := l.createStorageFile { files := [], nFiles := 0, fileSize, nPages := 0 }
  cachedVectors := List.replicate (fileSize / l.pageSize * l.dim) 0
  cachedMaxDists := []
  distToAnchorBuffer := []

/-- What a client asks for. -/
inductive Order (R : Type) (dim : Nat) where
  | query (q : Span R dim)
  | insert (newId : Nat) (newVector : Span R dim)

def Order.inserted {dim : Nat} : Order R dim → Option (Nat × Span R dim)
  | query _ => none
  | insert newId newVector => some (newId, newVector)

/-- An insertion without a distance buffer finds room on page 0. -/
def FindsRoom (l : PageLayout) (b : MappedCore R) : Prop :=
  b.distToAnchorBuffer = [] →
    ∀ n ∈ l.getNVectorsOf b.dbStorage.files 0 0, n.toNat < l.maxNumVectorsPerPage

variable [LinearOrder R] (distFunc : List R → List R → R) (density : ℚ)

/-- What an insertion returns when it is given fuel enough. -/
def Inserts (b : MappedCore R) (newId : Nat) (newVector : Span R l.dim) (b' : MappedCore R) :
    Prop :=
  ∃ n, ∀ fuel, n ≤ fuel →
    φ.insertAVector distFunc density fuel b (.ofNat newId) newVector.numbers = some b'

/-- Orders that have been carried out one after the other. -/
inductive Served : MappedCore R → List (Order R l.dim) → MappedCore R → Prop
  | nil (b : MappedCore R) : Served b [] b
  | query {b b' : MappedCore R} {q : Span R l.dim} {orders : List (Order R l.dim)}
      {buffer : List (IdTaggedDistance R)}
      (hfill : fillDistToAnchorBufferSingleThreaded l distFunc b.cachedVectors b.cachedMaxDists
        q.numbers = some buffer)
      (hrest : Served { b with distToAnchorBuffer := buffer } orders b') :
      Served b (.query q :: orders) b'
  | insert {b b₁ b' : MappedCore R} {newId : Nat} {newVector : Span R l.dim}
      {orders : List (Order R l.dim)} (hroom : FindsRoom l b)
      (hinsert : φ.Inserts distFunc density b newId newVector b₁) (hrest : Served b₁ orders b') :
      Served b (.insert newId newVector :: orders) b'

end Functions

/-! ## Reading everything back -/

section Read

variable [Zero R] {φ : l.NumberFormat R} {s : Storage (Span R l.dim) R} {b : MappedStorage}

/-- A stored pair as it is read from the bytes. -/
def readSlot {dim : Nat} (v : Nat × Span R dim) : UInt64 × List R := (.ofNat v.1, v.2.numbers)

theorem Holds.readVectors_eq (h : φ.Holds s b) (hsize : l.pageSize < 2 ^ 64) :
    φ.readVectors b = some ((s.pages.map Page.slots).flatten.map readSlot) := by
  have hpages : ∀ (i : Nat) (p : Page (Span R l.dim) R), s.pages[i]? = some p → (do
      let n ← l.getNVectorsOf b.files (l.calculateFileIndex b i) (l.calculatePageIndex b i)
      (List.range n.toNat).mapM fun j => do
        let id ← l.getVectorId b.files (l.calculateFileIndex b i) (l.calculatePageIndex b i) j
        let v ← φ.getVector b (l.calculateFileIndex b i) (l.calculatePageIndex b i) j
        some (id, v)) = some (p.slots.map readSlot) := by
    intro i p hp
    have hrep := h.pageAt ((h.uniform.pageAt?_eq i).trans hp)
    simp only [Option.bind_eq_bind, hrep.nVectors, Option.bind_some, toNat_nVectors hrep hsize]
    refine ListUpdate.mapM_range fun j v hv => ?_
    simp only [(hrep.slots j v hv).1, getVector_eq hrep hv, Option.bind_some]
    rfl
  rw [readVectors, h.nPages, ← h.uniform.length_pages, ListUpdate.mapM_range hpages,
    Option.bind_eq_bind, Option.bind_some, List.map_flatten, List.map_map]
  rfl

omit [Zero R] in
theorem coe_flatten_slots (pages : List (Page (Span R l.dim) R)) :
    ((pages.map Page.slots).flatten : Multiset (Nat × Span R l.dim)) = contents pages := by
  induction pages with
  | nil => rfl
  | cons p pages ih =>
    rw [List.map_cons, List.flatten_cons, ← Multiset.coe_add, ih, contents_cons]

end Read

/-! ## Runs -/

section Run

variable [Zero R] [LinearOrder R] {φ : l.NumberFormat R} {dist : DistFunc (Span R l.dim) R}
  {distFunc : List R → List R → R} {density : ℚ} {c : Core (Span R l.dim) R} {b b' : MappedCore R}
  {orders : List (Order R l.dim)}

theorem maxNumVectors_le (capacity : Nat) (hdensity : density ≤ 1) :
    maxNumVectors capacity density ≤ capacity :=
  Nat.floor_le_of_le (mul_le_of_le_one_right (Nat.cast_nonneg capacity) hdensity)

theorem Inserts.unique {newId : Nat} {newVector : Span R l.dim} {b₁ b₂ : MappedCore R}
    (h₁ : φ.Inserts distFunc density b newId newVector b₁)
    (h₂ : φ.Inserts distFunc density b newId newVector b₂) : b₁ = b₂ := by
  obtain ⟨n₁, h₁⟩ := h₁
  obtain ⟨n₂, h₂⟩ := h₂
  exact Option.some.inj ((h₁ (max n₁ n₂) (le_max_left _ _)).symm.trans
    (h₂ (max n₁ n₂) (le_max_right _ _)))

omit [LinearOrder R] in
/-- The check of the first page on bytes. -/
theorem HoldsCore.firstPageFits (h : φ.HoldsCore c b) (hsane : c.Sane)
    (hsize : l.pageSize < 2 ^ 64) (hroom : FindsRoom l b) :
    FirstPageFits l.maxNumVectorsPerPage c := by
  intro hnil p hp
  have hrep := h.dbStorage.pageAt ((hsane.uniform.pageAt?_eq 0).trans hp)
  rw [calculateFileIndex, calculatePageIndex, Nat.zero_div, Nat.zero_mod] at hrep
  have hlt := hroom (h.distToAnchorBuffer.trans hnil) _ hrep.nVectors
  rwa [toNat_nVectors hrep hsize] at hlt

/-- A query finds the distances from its vector to the anchors. -/
theorem HoldsCore.fill (h : φ.HoldsCore c b) (hready : c.Ready dist)
    (hdist : dist.dist = Span.lift distFunc) (q : Span R l.dim) :
    ∃ buffer, fillDistToAnchorBufferSingleThreaded l distFunc b.cachedVectors b.cachedMaxDists
        q.numbers = some buffer ∧
      φ.HoldsCore { c with distToAnchorBuffer := buffer } { b with distToAnchorBuffer := buffer } ∧
      ({ c with distToAnchorBuffer := buffer } : Core _ _).Ready dist := by
  have hfill := fillDistToAnchorBuffer_eq (Span.lift distFunc) hready.coherent q
  obtain ⟨_, hfill', rfl⟩ := fillDistToAnchorBuffer_follows distFunc _ _ q _ hfill
  rw [← h.cachedVectors, ← h.cachedMaxDists] at hfill'
  refine ⟨_, hfill', ⟨h.dbStorage, h.cachedVectors, h.cachedMaxDists, rfl⟩,
    hready.uniform, hready.nonempty, hready.coherent, hready.attained, ?_⟩
  rw [← hdist]
  exact anchorDistances_valid c.dbStorage.pages q

/-- An insertion adds the new vector to what the bytes hold. -/
theorem HoldsCore.insert (h : φ.HoldsCore c b) (hready : c.Ready dist)
    (hsize : l.pageSize < 2 ^ 64) (hcap : 1 < l.maxNumVectorsPerPage) (hdensity : density ≤ 1)
    (hdist : dist.dist = Span.lift distFunc) (hroom : FindsRoom l b) (newId : Nat)
    (newVector : Span R l.dim) :
    ∃ c' b', φ.Inserts distFunc density b newId newVector b' ∧ φ.HoldsCore c' b' ∧
      c'.Ready dist ∧
      contents c'.dbStorage.pages = contents c.dbStorage.pages + {(newId, newVector)} := by
  obtain ⟨c', n, hrun, hready', hcontents⟩ := hready.insert_contents density newId newVector
  rw [hdist] at hrun
  obtain ⟨b', hb', hholds⟩ := insertAVector_follows hsize hcap (maxNumVectors_le _ hdensity) n h
    hready.sane (h.firstPageFits hready.sane hsize hroom) newId newVector c' (hrun n le_rfl)
  exact ⟨c', b', ⟨n, fun fuel hle => insertAVector_mono hle hb'⟩, hholds, hready', hcontents⟩

/-- What every run keeps: the bytes stand for pages that hold the inserted vectors. -/
theorem Served.holds (hsize : l.pageSize < 2 ^ 64) (hcap : 1 < l.maxNumVectorsPerPage)
    (hdensity : density ≤ 1) (hdist : dist.dist = Span.lift distFunc)
    (hrun : φ.Served distFunc density b orders b') (h : φ.HoldsCore c b) (hready : c.Ready dist) :
    ∃ c', φ.HoldsCore c' b' ∧ c'.Ready dist ∧ contents c'.dbStorage.pages =
      contents c.dbStorage.pages + (orders.filterMap Order.inserted : Multiset _) := by
  induction hrun generalizing c with
  | nil b => exact ⟨c, h, hready, by simp⟩
  | @query b b' q orders buffer hfill hrest ih =>
    obtain ⟨buffer', hfill', h', hready'⟩ := h.fill hready hdist q
    obtain rfl : buffer' = buffer := Option.some.inj (hfill'.symm.trans hfill)
    exact ih (c := { c with distToAnchorBuffer := buffer' }) h' hready'
  | @insert b b₁ b' newId newVector orders hroom hinsert hrest ih =>
    obtain ⟨c₁, b₁', hinsert', h', hready', hcontents⟩ :=
      h.insert hready hsize hcap hdensity hdist hroom newId newVector
    obtain rfl := hinsert.unique hinsert'
    obtain ⟨c', hc', hready', hcontents'⟩ := ih h' hready'
    refine ⟨c', hc', hready', ?_⟩
    rw [hcontents', hcontents, List.filterMap_cons_some (f := Order.inserted) rfl,
      ← Multiset.cons_coe, ← Multiset.singleton_add, add_assoc]

/-- The start of every run. -/
theorem holds_newCore (φ : l.NumberFormat R) {fileSize : Nat} (hfile : l.pageSize ≤ fileSize)
    (dist : DistFunc (Span R l.dim) R) :
    ∃ c, φ.HoldsCore c (newCore l fileSize) ∧ c.Ready dist ∧ contents c.dbStorage.pages = 0 := by
  have hpos : 0 < l.pageSize := lt_of_lt_of_le (by decide) l.room
  let s : Storage (Span R l.dim) R := .createStorage l.pageSize fileSize l.dtype l.dim
  have hpages : s.pages = List.replicate (fileSize / l.pageSize) .zeroed :=
    Storage.pages_createStorageFile _
  have hempty : ∀ p ∈ s.pages, p = .zeroed := fun p hp =>
    (List.mem_replicate.mp (hpages ▸ hp)).2
  have hgrown : s.Grown l.pageSize fileSize l.dtype l.dim := Storage.grown_createStorage hpos hfile
  refine ⟨⟨s, List.replicate (fileSize / l.pageSize) default, [], []⟩, ⟨⟨?_, hgrown.uniform, ?_, ?_⟩,
    ?_, rfl, rfl⟩, ⟨hgrown.uniform, ?_, ⟨?_, ?_⟩, ?_, ?_⟩, ?_⟩
  · exact Simulates.created φ.encoding fileSize φ.bytes_zero
  · rfl
  · rfl
  · rw [List.map_replicate, newCore, ← List.flatten_replicate_replicate]
    rfl
  · rw [hpages]
    exact List.ne_nil_of_length_pos (by
      rw [List.length_replicate]
      exact Nat.div_pos hfile hpos)
  · intro i p a hp ha
    rw [hempty p (List.mem_of_getElem? hp)] at ha
    cases ha
  · refine (List.eq_nil_iff_forall_not_mem.mpr fun e he => ?_).symm
    obtain ⟨p, a, hp, ha, -⟩ := mem_perPage.mp he
    rw [hempty p (List.mem_of_getElem? hp)] at ha
    cases ha
  · intro p hp
    rw [hempty p hp]
    exact attained_zeroed
  · intro e he
    cases he
  · rw [hpages, ← List.nil_append (List.replicate _ _), contents_append_zeroed, contents_nil]

/-- After every run of a new process, what is read from the bytes of its files is what was
inserted, the next query succeeds, and so does the next insertion if it finds room. -/
theorem Served.complete (φ : l.NumberFormat R) (hsize : l.pageSize < 2 ^ 64)
    (hcap : 1 < l.maxNumVectorsPerPage) {fileSize : Nat} (hfile : l.pageSize ≤ fileSize)
    (hdensity : density ≤ 1) (hdist : dist.dist = Span.lift distFunc)
    (hrun : φ.Served distFunc density (newCore l fileSize) orders b) :
    (∃ stored, φ.readVectors b.dbStorage = some stored ∧ (stored : Multiset (UInt64 × List R)) =
      (orders.filterMap Order.inserted).map readSlot) ∧
    (∀ q : Span R l.dim, ∃ buffer, fillDistToAnchorBufferSingleThreaded l distFunc b.cachedVectors
      b.cachedMaxDists q.numbers = some buffer) ∧
    ∀ newId newVector, FindsRoom l b → ∃ b', φ.Inserts distFunc density b newId newVector b' := by
  obtain ⟨c, hc, hready, hnone⟩ := holds_newCore φ hfile dist
  obtain ⟨c', h, hready', hcontents⟩ := hrun.holds hsize hcap hdensity hdist hc hready
  refine ⟨⟨_, h.dbStorage.readVectors_eq hsize, ?_⟩, fun q => ?_, fun newId newVector hroom => ?_⟩
  · rw [← Multiset.map_coe, coe_flatten_slots, hcontents, hnone, zero_add, Multiset.map_coe]
  · obtain ⟨buffer, hfill, -⟩ := h.fill hready' hdist q
    exact ⟨buffer, hfill⟩
  · obtain ⟨_, b', hb', -⟩ := h.insert hready' hsize hcap hdensity hdist hroom newId newVector
    exact ⟨b', hb'⟩

end Run

/-- Numbers below 256, stored in the first byte. -/
def oneByte (l : PageLayout) : l.NumberFormat (Fin 256) where
  bytes d := UInt8.ofNat d.val :: List.replicate (l.elementSize - 1) 0
  number bytes := Fin.ofNat 256 (bytes.headD 0).toNat
  length_bytes d := by
    rw [List.length_cons, List.length_replicate, Nat.sub_add_cancel elementSize_pos]
  number_bytes d := by
    apply Fin.ext
    rw [List.headD_cons, UInt8.toNat_ofNat', Fin.val_ofNat, Nat.mod_mod, Nat.mod_eq_of_lt d.isLt]
  bytes_zero := by
    show List.replicate (l.elementSize - 1 + 1) (0 : UInt8) = _
    rw [Nat.sub_add_cancel elementSize_pos]

/-- Whether two vectors differ. -/
def differ (x y : List (Fin 256)) : Fin 256 := if x = y then 0 else 1

def differDist (dim : Nat) : DistFunc (Span (Fin 256) dim) (Fin 256) where
  dist := Span.lift differ
  self_eq _ := if_pos rfl
  symm v w := by simp only [Span.lift, differ, eq_comm]
  nonneg _ _ := Fin.zero_le _

/-- Two insertions, the second with a buffer filled for another vector. -/
def someOrders : List (Order (Fin 256) 2) :=
  [.insert 7 ⟨[1, 2], rfl⟩, .query ⟨[3, 4], rfl⟩, .insert 9 ⟨[5, 6], rfl⟩]

theorem complete_threeSlots : ∃ b,
    (oneByte threeSlots).Served differ 1 (newCore threeSlots 128) someOrders b ∧
      (∃ stored, (oneByte threeSlots).readVectors b.dbStorage = some stored ∧
        (stored : Multiset (UInt64 × List (Fin 256))) =
          (someOrders.filterMap Order.inserted).map readSlot) ∧
      (∀ q : Span (Fin 256) 2, ∃ buffer, fillDistToAnchorBufferSingleThreaded threeSlots differ
        b.cachedVectors b.cachedMaxDists q.numbers = some buffer) ∧
      ∀ newId newVector, FindsRoom threeSlots b →
        ∃ b', (oneByte threeSlots).Inserts differ 1 b newId newVector b' := by
  have hcap : 1 < threeSlots.maxNumVectorsPerPage := by decide
  have hsize : threeSlots.pageSize < 2 ^ 64 := by decide
  have hdist : (differDist 2).dist = Span.lift differ := rfl
  -- after the first insertion there is one vector on page 0
  have hfirst : ((oneByte threeSlots).insertAVector differ 1 1 (newCore threeSlots 128) 7
      [1, 2]).bind (fun b => threeSlots.getNVectorsOf b.dbStorage.files 0 0) = some 1 := by
    decide +kernel
  obtain ⟨b₁, hinsert, hone⟩ := Option.bind_eq_some_iff.mp hfirst
  have hnone : FindsRoom threeSlots (newCore threeSlots 128 : MappedCore (Fin 256)) := by
    intro _ n hn
    have hzero : threeSlots.getNVectorsOf (newCore (R := Fin 256) threeSlots 128).dbStorage.files
        0 0 = some 0 := by decide +kernel
    obtain rfl : 0 = n := Option.some.inj (hzero.symm.trans hn)
    decide
  have hfile : threeSlots.pageSize ≤ 128 := by decide
  obtain ⟨c, hc, hready, -⟩ := holds_newCore (oneByte threeSlots) hfile (differDist 2)
  obtain ⟨c₁, b₁', hinserts, hc₁, hready₁, -⟩ := hc.insert hready hsize hcap le_rfl hdist hnone 7
    ⟨[1, 2], rfl⟩
  obtain rfl := hinserts.unique ⟨1, fun fuel hle => insertAVector_mono hle hinsert⟩
  obtain ⟨buffer, hfill, hc₂, hready₂⟩ := hc₁.fill hready₁ hdist ⟨[3, 4], rfl⟩
  have hroom : FindsRoom threeSlots { b₁' with distToAnchorBuffer := buffer } := by
    intro _ n hn
    obtain rfl : 1 = n := Option.some.inj (hone.symm.trans hn)
    decide
  obtain ⟨c₃, b₃, hinserts₃, -⟩ := hc₂.insert hready₂ hsize hcap le_rfl hdist hroom 9 ⟨[5, 6], rfl⟩
  have hrun : (oneByte threeSlots).Served differ 1 (newCore threeSlots 128) someOrders b₃ :=
    .insert hnone hinserts (.query hfill (.insert hroom hinserts₃ (.nil b₃)))
  exact ⟨b₃, hrun, Served.complete (oneByte threeSlots) hsize hcap hfile le_rfl hdist hrun⟩

end NumberFormat

end PageLayout

end Spheres
