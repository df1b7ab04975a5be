import Mathlib.Data.Rat.Floor
import Spheres.Execution.Caches

/-!
# Inserting one vector

`insert_a_vector` picks the page at the head of the distance buffer and runs
through eight cases. A full page gives up its farthest vector, which is then
inserted in turn with a freshly filled buffer; the model of this recursion
takes fuel, and `Execution/InsertRun` shows that enough fuel exists.

`Change` says for each reachable case what it does to the pages, together with
its guard. Cases 7 and 8 are not among them: the guards of cases 5 and 6
already cover every call with `current_best_dist >= max_dist`.
-/

namespace Spheres.Execution

open Library

variable {V R : Type*}

/-- The arguments that `insert_a_vector` takes by reference. -/
structure Core (V R : Type*) where
  dbStorage : Storage V R
  cachedVectors : List V
  cachedMaxDists : List (IdTaggedDistance R)
  distToAnchorBuffer : List (IdTaggedDistance R)

/-- `std::floor` of the capacity times the density. -/
def maxNumVectors (capacity : Nat) (inPageVectorDensity : ℚ) : Nat :=
  ⌊(capacity : ℚ) * inPageVectorDensity⌋₊

theorem maxNumVectors_one (capacity : Nat) : maxNumVectors capacity 1 = capacity := by
  simp [maxNumVectors]

/-- `calculate_new_max_dist` followed by `update_in_page_max_dist`. -/
def renewMaxDist [Zero R] [LT R] [DecidableLT R] (dist : V → V → R) (s : Storage V R)
    (pageIdx : Nat) : Option (Storage V R) :=
  s.modifyPageAt pageIdx (.renewMaxDist dist)

/-- `create_storage_file`, then `append_new_vector` to the first page of the new file. -/
def appendToNewFile [Zero R] (s : Storage V R) (newId : Nat) (newVector : V) :
    Option (Storage V R) :=
  let s := s.createStorageFile
  s.modifyPage (s.files.length - 1) 0 (.append newId newVector)

namespace Core

def updateCachedMaxDist (c : Core V R) : Option (Core V R) :=
  (updateCachedMaxDistSingleThreaded c.dbStorage).map fun cached =>
    { c with cachedMaxDists := cached }

/-- `update_anchor_cache_single_threaded`, then
`update_cached_max_dist_single_threaded`. -/
def updateCaches [Inhabited V] (c : Core V R) : Option (Core V R) :=
  (updateAnchorCacheSingleThreaded c.dbStorage c.cachedVectors).bind fun cached =>
    { c with cachedVectors := cached }.updateCachedMaxDist

end Core

/-- The page search of case 5: every page in the cache is marked, and the first
page without a mark is taken. -/
def findEmptyPage (nPages : Nat) (cachedMaxDists : List (IdTaggedDistance R)) : Option Nat :=
  (cachedMaxDists.foldlM (fun (allPageIdx : List Bool) e =>
    if e.second < allPageIdx.length then some (allPageIdx.set e.second false) else none)
    (List.replicate nPages true)).map fun allPageIdx => allPageIdx.findIdx id

/-- Cases 2 to 8 of `insert_a_vector`, for the page `p` at the head of the
buffer. `insertVictim` is the recursive call. A victim index past the occupied
slots would read bytes that belong to no vector, so it has no result. -/
def insertNear [Zero R] [LinearOrder R] [Inhabited V] (dist : V → V → R)
    (inPageVectorDensity : ℚ) (insertVictim : Core V R → Nat → V → Option (Core V R))
    (c : Core V R) (newId : Nat) (newVector : V) (best : IdTaggedDistance R) (p : Page V R) :
    Option (Core V R) :=
  let pageIdx := best.second
  if p.nVectors = 1 then -- case 2
    ((appendNewVector c.dbStorage newId newVector pageIdx).bind fun s =>
    renewMaxDist dist s pageIdx).bind fun s =>
    { c with dbStorage := s }.updateCachedMaxDist
  else
    let currentBestDist := best.first
    let maxDist := p.maxDist
    let maxNum := maxNumVectors c.dbStorage.maxNumVectorsPerPage inPageVectorDensity
    if currentBestDist < maxDist ∧ p.nVectors + 1 ≤ maxNum then -- case 3
      (appendNewVector c.dbStorage newId newVector pageIdx).map fun s =>
      { c with dbStorage := s }
    else if currentBestDist < maxDist ∧ p.nVectors + 1 > maxNum then -- case 4
      let victimIndex := p.findVictimSingleThreaded dist
      (p.slots[victimIndex]?).bind fun victim =>
      (((c.dbStorage.modifyPageAt pageIdx (.placeAt newId newVector victimIndex)).bind fun s =>
      renewMaxDist dist s pageIdx).bind fun s =>
      { c with dbStorage := s }.updateCachedMaxDist).bind fun c =>
      (fillDistToAnchorBufferSingleThreaded dist c.cachedVectors c.cachedMaxDists
        victim.2).bind fun buffer =>
      insertVictim { c with distToAnchorBuffer := buffer } victim.1 victim.2
    else if currentBestDist ≥ maxDist ∧ c.cachedMaxDists.length < c.dbStorage.nPages then -- case 5
      (findEmptyPage c.dbStorage.nPages c.cachedMaxDists).bind fun emptyPageIdx =>
      (appendNewVector c.dbStorage newId newVector emptyPageIdx).bind fun s =>
      { c with dbStorage := s }.updateCaches
    else if currentBestDist ≥ maxDist ∧ c.cachedMaxDists.length ≥ c.dbStorage.nPages then -- case 6
      (appendToNewFile c.dbStorage newId newVector).bind fun s =>
      { c with dbStorage := s }.updateCaches
    else if currentBestDist ≥ maxDist ∧ p.nVectors + 1 < maxNum then -- case 7
      (appendNewVector c.dbStorage newId newVector pageIdx).bind fun s =>
      (s.modifyPageAt pageIdx (.setMaxDist currentBestDist)).bind fun s =>
      { c with dbStorage := s }.updateCachedMaxDist
    else if currentBestDist ≥ maxDist ∧ p.nVectors + 1 ≥ maxNum then -- case 8
      (appendToNewFile c.dbStorage newId newVector).bind fun s =>
      { c with dbStorage := s }.updateCaches
    else none

/-- `execution::storage::insert_a_vector`. -/
def insertAVector [Zero R] [LinearOrder R] [Inhabited V] (dist : V → V → R)
    (inPageVectorDensity : ℚ) : Nat → Core V R → Nat → V → Option (Core V R)
  | 0, _, _, _ => none
  | fuel + 1, c, newId, newVector =>
    match c.distToAnchorBuffer.head? with
    | none => -- case 1
      (appendNewVector c.dbStorage newId newVector 0).bind fun s =>
      { c with dbStorage := s }.updateCaches
    | some best =>
      (c.dbStorage.pageAt? best.second).bind fun p =>
      insertNear dist inPageVectorDensity (insertAVector dist inPageVectorDensity fuel) c newId
        newVector best p

/-- The same function, with the recursive call of case 4 as a parameter. -/
def insertBody [Zero R] [LinearOrder R] [Inhabited V] (dist : V → V → R)
    (inPageVectorDensity : ℚ) (insertVictim : Core V R → Nat → V → Option (Core V R))
    (c : Core V R) (newId : Nat) (newVector : V) : Option (Core V R) :=
  match c.distToAnchorBuffer.head? with
  | none =>
    (appendNewVector c.dbStorage newId newVector 0).bind fun s =>
    { c with dbStorage := s }.updateCaches
  | some best =>
    (c.dbStorage.pageAt? best.second).bind fun p =>
    insertNear dist inPageVectorDensity insertVictim c newId newVector best p

/-! ## The search for an empty page -/

theorem marks_spec (entries : List (IdTaggedDistance R)) (marks : List Bool)
    (h : ∀ e ∈ entries, e.second < marks.length) :
    ∃ out, entries.foldlM (fun (allPageIdx : List Bool) e =>
        if e.second < allPageIdx.length then some (allPageIdx.set e.second false) else none)
        marks = some out ∧ out.length = marks.length ∧
      ∀ j : Nat, out[j]? = some true ↔ marks[j]? = some true ∧ ∀ e ∈ entries, e.second ≠ j := by
  induction entries generalizing marks with
  | nil => exact ⟨marks, rfl, rfl, fun j => by simp⟩
  | cons e entries ih =>
    have he := h e List.mem_cons_self
    obtain ⟨out, hrun, hlen, hout⟩ := ih (marks.set e.second false) fun x hx => by
      rw [List.length_set]
      exact h x (List.mem_cons_of_mem _ hx)
    refine ⟨out, ?_, by rw [hlen, List.length_set], fun j => ?_⟩
    · simp only [List.foldlM_cons, if_pos he, Option.bind_eq_bind, Option.bind_some, hrun]
    · rw [hout j, List.getElem?_set]
      by_cases hj : e.second = j
      · subst hj
        simp [he]
      · simp [hj]

/-- With coherent caches the search of case 5 finds an empty page. -/
theorem findEmptyPage_spec {pages : List (Page V R)}
    (hroom : (radiusList pages).length < pages.length) :
    ∃ i p, findEmptyPage pages.length (radiusList pages) = some i ∧ pages[i]? = some p ∧
      p.slots = [] := by
  obtain ⟨marks, hrun, hlen, hmarks⟩ := marks_spec (radiusList pages)
    (List.replicate pages.length true) fun e he => by
      obtain ⟨p, -, hp, -⟩ := mem_perPage.mp he
      rw [List.length_replicate]
      exact (List.getElem?_eq_some_iff.mp hp).1
  rw [List.length_replicate] at hlen
  obtain ⟨j, hj, hempty⟩ : ∃ j, j < pages.length ∧ ∀ e ∈ radiusList pages, e.second ≠ j := by
    by_contra hno
    push Not at hno
    have hfull : (radiusList pages).length = (List.range pages.length).length := by
      rw [radiusList, perPage, List.filterMap_length_eq_length]
      intro j hj
      obtain ⟨e, he, rfl⟩ := hno j (List.mem_range.mp hj)
      obtain ⟨p, a, hp, ha, -⟩ := mem_perPage.mp he
      simp [hp, ha]
    rw [List.length_range] at hfull
    omega
  have hfound : ∃ x ∈ marks, id x = true := by
    have hmark := (hmarks j).mpr ⟨by simp [hj], hempty⟩
    exact ⟨true, List.mem_of_getElem? hmark, rfl⟩
  have hlt : marks.findIdx id < marks.length := List.findIdx_lt_length_of_exists hfound
  have htrue : marks[marks.findIdx id]? = some true := by
    rw [List.getElem?_eq_getElem hlt]
    exact congrArg some (List.findIdx_getElem (w := hlt))
  have hlt' : marks.findIdx id < pages.length := hlen ▸ hlt
  refine ⟨marks.findIdx id, pages[marks.findIdx id], ?_, List.getElem?_eq_getElem hlt', ?_⟩
  · rw [findEmptyPage, hrun, Option.map_some]
  · by_contra hne
    obtain ⟨a, ha⟩ := exists_anchor hne
    exact ((hmarks _).mp htrue).2 ⟨(pages[marks.findIdx id]).maxDist, marks.findIdx id⟩
      (mem_perPage.mpr ⟨_, a, List.getElem?_eq_getElem hlt', ha, rfl⟩) rfl

/-! ## What one call does to the pages -/

/-- The reachable cases. Page `i` of the pages with `grown` empty ones added
behind them turns from `p` into `g p`, and `left` remains to be inserted. -/
inductive Change [Zero R] [LinearOrder R] (dist : V → V → R) (maxNum : Nat)
    (pages : List (Page V R)) (buffer : List (IdTaggedDistance R)) (newId : Nat) (newVector : V) :
    Nat → Nat → Page V R → (Page V R → Page V R) → Option (Nat × V) → Prop
  | first {p : Page V R} (hBuffer : buffer = []) :
      Change dist maxNum pages buffer newId newVector 0 0 p (.append newId newVector) none
  | second {best : IdTaggedDistance R} {p : Page V R} (hBuffer : buffer.head? = some best)
      (hOne : p.nVectors = 1) :
      Change dist maxNum pages buffer newId newVector 0 best.second p
        (fun q => (q.append newId newVector).renewMaxDist dist) none
  | inside {best : IdTaggedDistance R} {p : Page V R} (hBuffer : buffer.head? = some best)
      (hMany : p.nVectors ≠ 1) (hLt : best.first < p.maxDist) (hRoom : p.nVectors + 1 ≤ maxNum) :
      Change dist maxNum pages buffer newId newVector 0 best.second p
        (.append newId newVector) none
  | evict {best : IdTaggedDistance R} {p : Page V R} {victim : Nat × V}
      (hBuffer : buffer.head? = some best) (hMany : p.nVectors ≠ 1)
      (hLt : best.first < p.maxDist) (hFull : maxNum < p.nVectors + 1)
      (hVictim : p.slots[p.findVictimSingleThreaded dist]? = some victim) :
      Change dist maxNum pages buffer newId newVector 0 best.second p
        (fun q => (q.placeAt newId newVector (p.findVictimSingleThreaded dist)).renewMaxDist dist)
        (some victim)
  | vacant {best : IdTaggedDistance R} {near p : Page V R} {i : Nat}
      (hBuffer : buffer.head? = some best) (hNear : pages[best.second]? = some near)
      (hMany : near.nVectors ≠ 1) (hGe : near.maxDist ≤ best.first) (hEmpty : p.slots = []) :
      Change dist maxNum pages buffer newId newVector 0 i p (.append newId newVector) none
  | newFile {best : IdTaggedDistance R} {near : Page V R} {grown : Nat}
      (hBuffer : buffer.head? = some best) (hNear : pages[best.second]? = some near)
      (hMany : near.nVectors ≠ 1) (hGe : near.maxDist ≤ best.first) :
      Change dist maxNum pages buffer newId newVector grown pages.length .zeroed
        (.append newId newVector) none

section Call

variable [Zero R] [LinearOrder R]

/-- There is a page, the caches agree with the pages, and the buffer names
non-empty pages. -/
structure Core.Sane (c : Core V R) : Prop where
  uniform : c.dbStorage.Uniform
  nonempty : c.dbStorage.pages ≠ []
  coherent : Coherent c.dbStorage.pages c.cachedVectors c.cachedMaxDists
  buffer : ∀ e ∈ c.distToAnchorBuffer, ∃ p, c.dbStorage.pages[e.second]? = some p ∧ p.slots ≠ []

/-- What an insertion needs in order not to fail: every radius is zero or
attained, and the buffer names non-empty pages. -/
structure Core.Ready (dist : DistFunc V R) (c : Core V R) : Prop where
  uniform : c.dbStorage.Uniform
  nonempty : c.dbStorage.pages ≠ []
  coherent : Coherent c.dbStorage.pages c.cachedVectors c.cachedMaxDists
  attained : ∀ p ∈ c.dbStorage.pages, p.Attained dist
  buffer : ∀ e ∈ c.distToAnchorBuffer, 0 ≤ e.first ∧
    ∃ p, c.dbStorage.pages[e.second]? = some p ∧ p.slots ≠ []

/-- `c'` is `c` after a change of page `i`, with caches that agree with the
pages again. -/
structure Edited (c c' : Core V R) (grown i : Nat) (p : Page V R) (g : Page V R → Page V R) :
    Prop where
  page : (c.dbStorage.pages ++ List.replicate grown Page.zeroed)[i]? = some p
  rewritten : c.dbStorage.Rewritten c'.dbStorage
    ((c.dbStorage.pages ++ List.replicate grown Page.zeroed).modify i g)
  coherent : Coherent c'.dbStorage.pages c'.cachedVectors c'.cachedMaxDists

/-- How a call goes on: it returns, or it inserts a victim with a buffer filled
for that victim. -/
def Continues [Inhabited V] (dist : V → V → R) (density : ℚ) (c : Core V R) (newId : Nat)
    (newVector : V) (c' : Core V R) : Option (Nat × V) → Prop
  | none => c'.distToAnchorBuffer = c.distToAnchorBuffer ∧
      ∀ fuel, insertAVector dist density (fuel + 1) c newId newVector = some c'
  | some victim => c'.distToAnchorBuffer =
        (anchorDistances dist c'.dbStorage.pages victim.2).insertionSort (· ≤ ·) ∧
      ∀ fuel, insertAVector dist density (fuel + 1) c newId newVector =
        insertAVector dist density fuel c' victim.1 victim.2

/-- The same for any recursive call. -/
def Proceeds [Inhabited V] (dist : V → V → R) (density : ℚ) (c : Core V R) (newId : Nat)
    (newVector : V) (c' : Core V R) : Option (Nat × V) → Prop
  | none => c'.distToAnchorBuffer = c.distToAnchorBuffer ∧
      ∀ insertVictim, insertBody dist density insertVictim c newId newVector = some c'
  | some victim => c'.distToAnchorBuffer =
        (anchorDistances dist c'.dbStorage.pages victim.2).insertionSort (· ≤ ·) ∧
      ∀ insertVictim, insertBody dist density insertVictim c newId newVector =
        insertVictim c' victim.1 victim.2

theorem Proceeds.continues [Inhabited V] {dist : V → V → R} {density : ℚ} {c c' : Core V R}
    {newId : Nat} {newVector : V} {left : Option (Nat × V)}
    (h : Proceeds dist density c newId newVector c' left) :
    Continues dist density c newId newVector c' left := by
  cases left with
  | none => exact ⟨h.1, fun fuel => h.2 _⟩
  | some victim => exact ⟨h.1, fun fuel => h.2 _⟩

omit [Zero R] [LinearOrder R] in
theorem Core.updateCaches_eq [Inhabited V] {c : Core V R} (h : c.dbStorage.Uniform) :
    ∃ cached, c.updateCaches = some { c with
        cachedVectors := cached, cachedMaxDists := radiusList c.dbStorage.pages } ∧
      Coherent c.dbStorage.pages cached (radiusList c.dbStorage.pages) := by
  obtain ⟨cached, hrun, -, hcached⟩ := updateAnchorCache_spec h c.cachedVectors
  refine ⟨cached, ?_, hcached, rfl⟩
  simp only [Core.updateCaches, hrun, Option.bind_some, Core.updateCachedMaxDist,
    updateCachedMaxDist_eq h, Option.map_some]

omit [Zero R] [LinearOrder R] in
theorem Core.updateCachedMaxDist_eq {c : Core V R} (h : c.dbStorage.Uniform) :
    c.updateCachedMaxDist =
      some { c with cachedMaxDists := radiusList c.dbStorage.pages } := by
  rw [Core.updateCachedMaxDist, Execution.updateCachedMaxDist_eq h, Option.map_some]

theorem Core.Ready.sane {dist : DistFunc V R} {c : Core V R} (h : c.Ready dist) : c.Sane :=
  ⟨h.uniform, h.nonempty, h.coherent, fun e he => (h.buffer e he).2⟩

variable {dist : V → V → R} {c : Core V R} {newId : Nat} {newVector : V}

omit [LinearOrder R] in
/-- Append to a page and rebuild both caches: cases 1 and 5. -/
theorem Core.Sane.append_updateCaches [Inhabited V] (h : c.Sane) {i : Nat} {p : Page V R}
    (hp : c.dbStorage.pages[i]? = some p) (newId : Nat) (newVector : V) :
    ∃ c', ((appendNewVector c.dbStorage newId newVector i).bind fun s =>
        ({ c with dbStorage := s } : Core V R).updateCaches) = some c' ∧
      Edited c c' 0 i p (.append newId newVector) ∧
      c'.distToAnchorBuffer = c.distToAnchorBuffer := by
  obtain ⟨s, hs, hw⟩ := h.uniform.modifyPageAt (List.getElem?_eq_some_iff.mp hp).1
    (.append newId newVector)
  obtain ⟨cached, hrun, hcoh⟩ := Core.updateCaches_eq (c := { c with dbStorage := s }) hw.uniform
  refine ⟨_, (congrArg (Option.bind · _) hs).trans hrun, ⟨?_, ?_, hcoh⟩, rfl⟩
  · simpa using hp
  · simpa using hw

/-- Change a page that keeps its anchor and rebuild the radius cache: cases 2 and 4. -/
theorem Core.Sane.renew_updateCachedMaxDist (h : c.Sane) {i : Nat} {p : Page V R}
    (hp : c.dbStorage.pages[i]? = some p) (g : Page V R → Page V R)
    (hAnchor : (g p).anchor = p.anchor) :
    ∃ c', (((c.dbStorage.modifyPageAt i g).bind fun s => renewMaxDist dist s i).bind fun s =>
        ({ c with dbStorage := s } : Core V R).updateCachedMaxDist) = some c' ∧
      Edited c c' 0 i p (fun q => (g q).renewMaxDist dist) ∧
      c'.distToAnchorBuffer = c.distToAnchorBuffer := by
  have hlt := (List.getElem?_eq_some_iff.mp hp).1
  obtain ⟨s, hs, hw⟩ := h.uniform.modifyPageAt hlt g
  obtain ⟨s', hs', hw'⟩ := hw.uniform.modifyPageAt (i := i)
    (by rw [hw.pages_eq, List.length_modify]; exact hlt) (.renewMaxDist dist)
  have hpages : s'.pages = c.dbStorage.pages.modify i fun q => (g q).renewMaxDist dist := by
    rw [hw'.pages_eq, hw.pages_eq, List.modify_modify_eq]
    rfl
  have hrun := Core.updateCachedMaxDist_eq (c := { c with dbStorage := s' }) hw'.uniform
  have hrenew : (c.dbStorage.modifyPageAt i g).bind (fun s => renewMaxDist dist s i) = some s' := by
    rw [hs, Option.bind_some, renewMaxDist, hs']
  refine ⟨_, (congrArg (Option.bind · _) hrenew).trans hrun, ⟨?_, ?_, ?_⟩, rfl⟩
  · simpa using hp
  · simpa using (⟨hw'.uniform, hw.shape.trans hw'.shape, hpages⟩ : c.dbStorage.Rewritten s' _)
  · refine ⟨?_, rfl⟩
    rw [hpages]
    exact h.coherent.vectors.modify hp hAnchor

omit [LinearOrder R] in
/-- Append to a non-empty page and leave the caches alone: case 3. -/
theorem Core.Sane.append_only (h : c.Sane) {i : Nat} {p : Page V R}
    (hp : c.dbStorage.pages[i]? = some p) (hne : p.slots ≠ []) (newId : Nat) (newVector : V) :
    ∃ c', ((appendNewVector c.dbStorage newId newVector i).map fun s =>
        ({ c with dbStorage := s } : Core V R)) = some c' ∧
      Edited c c' 0 i p (.append newId newVector) ∧
      c'.distToAnchorBuffer = c.distToAnchorBuffer := by
  obtain ⟨s, hs, hw⟩ := h.uniform.modifyPageAt (List.getElem?_eq_some_iff.mp hp).1
    (.append newId newVector)
  have hAnchor := Page.anchor_append hne newId newVector
  refine ⟨_, congrArg (Option.map _) hs, ⟨?_, ?_, ?_⟩, rfl⟩
  · simpa using hp
  · simpa using hw
  · rw [hw.pages_eq]
    refine ⟨h.coherent.vectors.modify hp hAnchor, ?_⟩
    rw [h.coherent.maxDists, radiusList, radiusList]
    exact (perPage_modify hp hAnchor fun _ => rfl).symm

omit [LinearOrder R] in
/-- Add a file, append to its first page and rebuild both caches: case 6. -/
theorem Core.Sane.append_newFile [Inhabited V] (h : c.Sane) (newId : Nat)
    (newVector : V) :
    ∃ c', ((appendToNewFile c.dbStorage newId newVector).bind fun s =>
        ({ c with dbStorage := s } : Core V R).updateCaches) = some c' ∧
      Edited c c' (c.dbStorage.fileSize / c.dbStorage.pageSize) c.dbStorage.pages.length .zeroed
        (.append newId newVector) ∧
      c'.distToAnchorBuffer = c.distToAnchorBuffer := by
  have hw := h.uniform.rewritten_createStorageFile
  have hlen : (c.dbStorage.createStorageFile.files.length - 1) *
      (c.dbStorage.createStorageFile.fileSize / c.dbStorage.createStorageFile.pageSize) =
        c.dbStorage.pages.length := by
    rw [h.uniform.length_pages, h.uniform.nPages_eq, h.uniform.nFiles_eq]
    simp [Storage.createStorageFile]
  have hpage : (c.dbStorage.pages ++ List.replicate
      (c.dbStorage.fileSize / c.dbStorage.pageSize) Page.zeroed)[c.dbStorage.pages.length]? =
        some .zeroed := by
    rw [List.getElem?_append_right le_rfl, Nat.sub_self]
    simp [h.uniform.width_pos]
  obtain ⟨s, hs, hw'⟩ := hw.uniform.modifyPageAt (i := c.dbStorage.pages.length)
    (by rw [hw.pages_eq]; exact (List.getElem?_eq_some_iff.mp hpage).1) (.append newId newVector)
  obtain ⟨cached, hrun, hcoh⟩ := Core.updateCaches_eq (c := { c with dbStorage := s }) hw'.uniform
  refine ⟨{ c with
    dbStorage := s, cachedVectors := cached, cachedMaxDists := radiusList s.pages }, ?_,
    ⟨hpage, ?_, hcoh⟩, rfl⟩
  · rw [appendToNewFile, hw.uniform.modifyPage_zero, hlen, hs, Option.bind_some, hrun]
  · rw [← hw.pages_eq]
    exact hw.trans hw'

omit [Zero R] in
theorem findVictim_pos {p : Page V R} (h : p.slots ≠ []) :
    0 < p.findVictimSingleThreaded dist := by
  obtain ⟨a, rest, hs⟩ := List.exists_cons_of_ne_nil h
  simp [Page.findVictimSingleThreaded, hs]

/-- One call: one of the changes is made, and the call returns or goes on with
the victim; or the nearest page is to give up a victim and has none. -/
theorem Core.Sane.insertBody [Inhabited V] (h : c.Sane) (dist : V → V → R) (density : ℚ)
    (newId : Nat) (newVector : V) :
    (∃ grown i p g left c',
      Change dist (maxNumVectors c.dbStorage.maxNumVectorsPerPage density) c.dbStorage.pages
        c.distToAnchorBuffer newId newVector grown i p g left ∧
      Edited c c' grown i p g ∧ Proceeds dist density c newId newVector c' left) ∨
    ∃ best ∈ c.distToAnchorBuffer, ∃ p, c.dbStorage.pages[best.second]? = some p ∧
      best.first < p.maxDist ∧ p.slots[p.findVictimSingleThreaded dist]? = none ∧
      ∀ insertVictim, Execution.insertBody dist density insertVictim c newId newVector = none := by
  cases hbuf : c.distToAnchorBuffer.head? with
  | none =>
    have hp : c.dbStorage.pages[0]? = some (c.dbStorage.pages.head h.nonempty) := by
      rw [← List.head?_eq_getElem?, List.head?_eq_some_head h.nonempty]
    obtain ⟨c', hrun, hedit, hbuf'⟩ := h.append_updateCaches hp newId newVector
    refine Or.inl ⟨_, _, _, _, none, c', .first (List.head?_eq_none_iff.mp hbuf), hedit, hbuf',
      fun insertVictim => ?_⟩
    rw [Execution.insertBody, hbuf]
    exact hrun
  | some best =>
    obtain ⟨p, hp, hne⟩ := h.buffer best (List.mem_of_mem_head? hbuf)
    have hcall : ∀ insertVictim, Execution.insertBody dist density insertVictim c newId newVector =
        insertNear dist density insertVictim c newId newVector best p := by
      intro insertVictim
      rw [Execution.insertBody, hbuf]
      exact congrArg (Option.bind · _) ((h.uniform.pageAt?_eq _).trans hp)
    have hcached : c.cachedMaxDists = radiusList c.dbStorage.pages := h.coherent.maxDists
    by_cases hOne : p.nVectors = 1
    · obtain ⟨c', hrun, hedit, hbuf'⟩ := h.renew_updateCachedMaxDist hp
        (.append newId newVector) (Page.anchor_append hne newId newVector)
      refine Or.inl ⟨_, _, _, _, none, c', .second hbuf hOne, hedit, hbuf', fun insertVictim => ?_⟩
      rw [hcall, insertNear, if_pos hOne]
      exact hrun
    · by_cases hLt : best.first < p.maxDist
      · by_cases hRoom : p.nVectors + 1 ≤
            maxNumVectors c.dbStorage.maxNumVectorsPerPage density
        · obtain ⟨c', hrun, hedit, hbuf'⟩ := h.append_only hp hne newId newVector
          refine Or.inl ⟨_, _, _, _, none, c', .inside hbuf hOne hLt hRoom, hedit, hbuf',
            fun insertVictim => ?_⟩
          rw [hcall, insertNear, if_neg hOne, if_pos ⟨hLt, hRoom⟩]
          exact hrun
        · have hFull := Nat.lt_of_not_le hRoom
          cases hv : p.slots[p.findVictimSingleThreaded dist]? with
          | none =>
            refine Or.inr ⟨best, List.mem_of_mem_head? hbuf, p, hp, hLt, hv, fun insertVictim => ?_⟩
            rw [hcall, insertNear, if_neg hOne, if_neg (fun hc => hRoom hc.2),
              if_pos ⟨hLt, hFull⟩]
            simp only [hv, Option.bind_none]
          | some victim =>
            obtain ⟨d, hrun, hedit, -⟩ := h.renew_updateCachedMaxDist hp
              (.placeAt newId newVector (p.findVictimSingleThreaded dist))
              (Page.anchor_placeAt (findVictim_pos hne) newId newVector p)
            have hfill := fillDistToAnchorBuffer_eq dist hedit.coherent victim.2
            refine Or.inl ⟨_, _, _, _, some victim, { d with distToAnchorBuffer :=
                (anchorDistances dist d.dbStorage.pages victim.2).insertionSort (· ≤ ·) },
              .evict hbuf hOne hLt hFull hv, ⟨hedit.page, hedit.rewritten, hedit.coherent⟩, rfl,
              fun insertVictim => ?_⟩
            rw [hcall, insertNear, if_neg hOne, if_neg (fun hc => hRoom hc.2),
              if_pos ⟨hLt, hFull⟩]
            simp only [hv, Option.bind_some, hrun, hfill]
      · have hGe : p.maxDist ≤ best.first := not_lt.mp hLt
        by_cases hVacant : (radiusList c.dbStorage.pages).length < c.dbStorage.pages.length
        · obtain ⟨i, q, hfind, hq, hempty⟩ := findEmptyPage_spec hVacant
          obtain ⟨c', hrun, hedit, hbuf'⟩ := h.append_updateCaches hq newId newVector
          refine Or.inl ⟨_, _, _, _, none, c', .vacant hbuf hp hOne hGe hempty, hedit, hbuf',
            fun insertVictim => ?_⟩
          rw [hcall, insertNear, if_neg hOne, if_neg (fun hc => hLt hc.1),
            if_neg (fun hc => hLt hc.1), hcached, ← h.uniform.length_pages, if_pos ⟨hGe, hVacant⟩]
          rw [hfind]
          exact hrun
        · obtain ⟨c', hrun, hedit, hbuf'⟩ := h.append_newFile newId newVector
          refine Or.inl ⟨_, _, _, _, none, c', .newFile hbuf hp hOne hGe, hedit, hbuf',
            fun insertVictim => ?_⟩
          rw [hcall, insertNear, if_neg hOne, if_neg (fun hc => hLt hc.1),
            if_neg (fun hc => hLt hc.1), hcached, ← h.uniform.length_pages,
            if_neg (fun hc => hVacant hc.2), if_pos ⟨hGe, Nat.le_of_not_lt hVacant⟩]
          exact hrun

theorem Core.Sane.insert [Inhabited V] (h : c.Sane) (dist : V → V → R) (density : ℚ)
    (newId : Nat) (newVector : V) :
    (∃ grown i p g left c',
      Change dist (maxNumVectors c.dbStorage.maxNumVectorsPerPage density) c.dbStorage.pages
        c.distToAnchorBuffer newId newVector grown i p g left ∧
      Edited c c' grown i p g ∧ Continues dist density c newId newVector c' left) ∨
    ∃ best ∈ c.distToAnchorBuffer, ∃ p, c.dbStorage.pages[best.second]? = some p ∧
      best.first < p.maxDist ∧ p.slots[p.findVictimSingleThreaded dist]? = none ∧
      ∀ fuel, insertAVector dist density fuel c newId newVector = none := by
  rcases h.insertBody dist density newId newVector with
    ⟨grown, i, p, g, left, c', hchange, hedit, hproceeds⟩ | ⟨best, hbest, p, hp, hlt, hnone, hbody⟩
  · exact Or.inl ⟨grown, i, p, g, left, c', hchange, hedit, hproceeds.continues⟩
  · refine Or.inr ⟨best, hbest, p, hp, hlt, hnone, fun fuel => ?_⟩
    cases fuel with
    | zero => rfl
    | succ fuel => exact hbody _

/-- One call of an insertion that cannot fail: one of the changes is made, and the
call returns or goes on with the victim. -/
theorem Core.Ready.insertBody [Inhabited V] {dist : DistFunc V R} (h : c.Ready dist) (density : ℚ)
    (newId : Nat) (newVector : V) :
    ∃ grown i p g left c',
      Change dist (maxNumVectors c.dbStorage.maxNumVectorsPerPage density) c.dbStorage.pages
        c.distToAnchorBuffer newId newVector grown i p g left ∧
      Edited c c' grown i p g ∧ Proceeds dist density c newId newVector c' left := by
  refine (h.sane.insertBody dist density newId newVector).resolve_right ?_
  rintro ⟨best, hbest, p, hp, hlt, hnone, -⟩
  have hpos : 0 < p.maxDist := (h.buffer best hbest).1.trans_lt hlt
  -- a positive attained radius has a victim
  rcases h.attained p (List.mem_of_getElem? hp) with h0 | hmem
  · exact absurd h0 hpos.ne'
  · obtain ⟨victim, hv, -⟩ := Page.findVictim_spec hpos hmem
    rw [hnone] at hv
    cases hv

theorem Core.Ready.insert [Inhabited V] {dist : DistFunc V R} (h : c.Ready dist) (density : ℚ)
    (newId : Nat) (newVector : V) :
    ∃ grown i p g left c',
      Change dist (maxNumVectors c.dbStorage.maxNumVectorsPerPage density) c.dbStorage.pages
        c.distToAnchorBuffer newId newVector grown i p g left ∧
      Edited c c' grown i p g ∧ Continues dist density c newId newVector c' left := by
  obtain ⟨grown, i, p, g, left, c', hchange, hedit, hproceeds⟩ :=
    h.insertBody density newId newVector
  exact ⟨grown, i, p, g, left, c', hchange, hedit, hproceeds.continues⟩

end Call

end Spheres.Execution
