import Mathlib.Data.List.Sort
import Spheres.Library.ListUpdate
import Spheres.Storage.Files

/-!
# The caches of a database

A database caches the anchors of its non-empty pages (`cached_vectors`, one
cell for each page index), their radii (`cached_max_dists`, in page order) and
the distances from one vector to all anchors (`dist_to_anchor_buffer`). The
functions below rebuild them from the storage or from each other. On a uniform
storage they never fail, and their results are `perPage` lists: one tagged
distance for each non-empty page.
-/

namespace Spheres.Execution

open Library

variable {V R : Type*}

/-- `append_new_vector` to a page given by its index. -/
def appendNewVector (s : Storage V R) (newId : Nat) (newVector : V) (pageIdx : Nat) :
    Option (Storage V R) :=
  s.modifyPageAt pageIdx (.append newId newVector)

def updateAnchorCacheSingleThreaded [Inhabited V] (s : Storage V R) (cachedVectors : List V) :
    Option (List V) :=
  let resized := cachedVectors ++ List.replicate (s.nPages - cachedVectors.length) default
  (List.range s.nPages).foldlM (fun cached i =>
    (s.pageAt? i).map fun p =>
      match p.anchor with
      | none => cached
      | some a => cached.set i a) resized

def updateCachedMaxDistSingleThreaded (s : Storage V R) : Option (List (IdTaggedDistance R)) :=
  (List.range s.nPages).foldlM (fun cached i =>
    (s.pageAt? i).map fun p =>
      if 0 < p.nVectors then cached ++ [⟨p.maxDist, i⟩] else cached) []

/-- `fill_dist_to_anchor_buffer_single_threaded` with `sort` set. -/
def fillDistToAnchorBufferSingleThreaded [LinearOrder R] (dist : V → V → R)
    (cachedVectors : List V) (cachedMaxDists : List (IdTaggedDistance R)) (query : V) :
    Option (List (IdTaggedDistance R)) :=
  (cachedMaxDists.mapM fun e =>
    (cachedVectors[e.second]?).map fun a => (⟨dist query a, e.second⟩ : IdTaggedDistance R)).map
      fun buffer => buffer.insertionSort (· ≤ ·)

/-! ## One tagged distance for each non-empty page -/

/-- `f page anchor` for every non-empty page, tagged with its index. -/
def perPage (pages : List (Page V R)) (f : Page V R → V → R) : List (IdTaggedDistance R) :=
  (List.range pages.length).filterMap fun i =>
    (pages[i]?).bind fun p => p.anchor.map fun a => ⟨f p a, i⟩

/-- The radii of the non-empty pages. -/
def radiusList (pages : List (Page V R)) : List (IdTaggedDistance R) :=
  perPage pages fun p _ => p.maxDist

/-- The distances from a vector to the anchors of the non-empty pages. -/
def anchorDistances (dist : V → V → R) (pages : List (Page V R)) (query : V) :
    List (IdTaggedDistance R) :=
  perPage pages fun _ a => dist query a

theorem anchor_eq_none {p : Page V R} : p.anchor = none ↔ p.slots = [] := by
  simp [Page.anchor]

theorem exists_anchor {p : Page V R} (h : p.slots ≠ []) : ∃ a, p.anchor = some a := by
  obtain ⟨a, rest, hs⟩ := List.exists_cons_of_ne_nil h
  exact ⟨a.2, by simp [Page.anchor, hs]⟩

theorem mem_perPage {pages : List (Page V R)} {f : Page V R → V → R} {e : IdTaggedDistance R} :
    e ∈ perPage pages f ↔
      ∃ p a, pages[e.second]? = some p ∧ p.anchor = some a ∧ e.first = f p a := by
  constructor
  · intro h
    obtain ⟨i, -, hi⟩ := List.mem_filterMap.mp h
    obtain ⟨p, hp, hmap⟩ := Option.bind_eq_some_iff.mp hi
    obtain ⟨a, ha, rfl⟩ := Option.map_eq_some_iff.mp hmap
    exact ⟨p, a, hp, ha, rfl⟩
  · rintro ⟨p, a, hp, ha, hfirst⟩
    obtain ⟨hlt, -⟩ := List.getElem?_eq_some_iff.mp hp
    refine List.mem_filterMap.mpr ⟨e.second, List.mem_range.mpr hlt, ?_⟩
    simp only [hp, Option.bind_some, ha, Option.map_some, ← hfirst]

theorem map_perPage (pages : List (Page V R)) (f g : Page V R → V → R)
    (h : IdTaggedDistance R → R)
    (heq : ∀ i p a, pages[i]? = some p → p.anchor = some a → h ⟨f p a, i⟩ = g p a) :
    (perPage pages f).map (fun e => ⟨h e, e.second⟩) = perPage pages g := by
  rw [perPage, List.map_filterMap, perPage]
  refine List.filterMap_congr fun i _ => ?_
  cases hp : pages[i]? with
  | none => rfl
  | some p =>
    cases ha : p.anchor with
    | none => simp [ha]
    | some a => simp [ha, heq i p a hp ha]

/-- A page that keeps its anchor and its value keeps its entry. -/
theorem perPage_modify {pages : List (Page V R)} {i : Nat} {p : Page V R}
    (hp : pages[i]? = some p) {g : Page V R → Page V R} {f : Page V R → V → R}
    (hAnchor : (g p).anchor = p.anchor) (hf : ∀ a, f (g p) a = f p a) :
    perPage (pages.modify i g) f = perPage pages f := by
  rw [perPage, perPage, List.length_modify]
  refine List.filterMap_congr fun j _ => ?_
  by_cases hij : i = j
  · subst hij
    simp only [ListUpdate.getElem?_modify_self hp, hp, Option.bind_some, hAnchor, hf]
  · rw [ListUpdate.getElem?_modify_ne hij]

/-- Page indices of a `perPage` list ascend. -/
theorem pairwise_perPage (pages : List (Page V R)) (f : Page V R → V → R) :
    (perPage pages f).Pairwise fun e e' => e.second < e'.second := by
  refine List.Pairwise.filterMap _ ?_ List.pairwise_lt_range
  intro i j hij a ha b hb
  obtain ⟨p, -, hp⟩ := Option.bind_eq_some_iff.mp ha
  obtain ⟨-, -, rfl⟩ := Option.map_eq_some_iff.mp hp
  obtain ⟨q, -, hq⟩ := Option.bind_eq_some_iff.mp hb
  obtain ⟨-, -, rfl⟩ := Option.map_eq_some_iff.mp hq
  exact hij

/-- The anchor of every non-empty page is in its cell of the cache. -/
def AnchorsCached (pages : List (Page V R)) (cachedVectors : List V) : Prop :=
  ∀ (i : Nat) (p : Page V R) (a : V), pages[i]? = some p → p.anchor = some a →
    cachedVectors[i]? = some a

/-- The caches agree with the pages. -/
structure Coherent (pages : List (Page V R)) (cachedVectors : List V)
    (cachedMaxDists : List (IdTaggedDistance R)) : Prop where
  vectors : AnchorsCached pages cachedVectors
  maxDists : cachedMaxDists = radiusList pages

theorem anchorsCached_iff {pages : List (Page V R)} {cachedVectors : List V} :
    AnchorsCached pages cachedVectors ↔
      ∀ i < pages.length, ∀ p ∈ pages[i]?, ∀ a ∈ p.anchor, cachedVectors[i]? = some a :=
  ⟨fun h i _ p hp a ha => h i p a hp ha,
    fun h i p a hp ha => h i (List.getElem?_eq_some_iff.mp hp).1 p hp a ha⟩

instance [DecidableEq V] (pages : List (Page V R)) (cachedVectors : List V) :
    Decidable (AnchorsCached pages cachedVectors) :=
  decidable_of_iff _ anchorsCached_iff.symm

instance [DecidableEq V] [DecidableEq R] (pages : List (Page V R)) (cachedVectors : List V)
    (cachedMaxDists : List (IdTaggedDistance R)) :
    Decidable (Coherent pages cachedVectors cachedMaxDists) :=
  decidable_of_iff (AnchorsCached pages cachedVectors ∧ cachedMaxDists = radiusList pages)
    ⟨fun ⟨h₁, h₂⟩ => ⟨h₁, h₂⟩, fun ⟨h₁, h₂⟩ => ⟨h₁, h₂⟩⟩

theorem AnchorsCached.modify {pages : List (Page V R)} {cachedVectors : List V}
    (h : AnchorsCached pages cachedVectors) {i : Nat} {p : Page V R} (hp : pages[i]? = some p)
    {g : Page V R → Page V R} (hAnchor : (g p).anchor = p.anchor) :
    AnchorsCached (pages.modify i g) cachedVectors := by
  intro j q a hq ha
  by_cases hij : i = j
  · subst hij
    rw [ListUpdate.getElem?_modify_self hp] at hq
    obtain rfl := Option.some.inj hq
    exact h i p a hp (hAnchor ▸ ha)
  · rw [ListUpdate.getElem?_modify_ne hij] at hq
    exact h j q a hq ha

/-! ## The rebuilding functions on a uniform storage -/

section Uniform

variable {s : Storage V R}

theorem updateCachedMaxDist_eq (h : s.Uniform) :
    updateCachedMaxDistSingleThreaded s = some (radiusList s.pages) := by
  rw [radiusList, perPage, h.length_pages]
  refine ListUpdate.foldlM_collect _ _ _ fun i hi acc => ?_
  have hlt : i < s.pages.length := by rwa [h.length_pages]
  rw [h.pageAt?_eq, List.getElem?_eq_getElem hlt]
  cases hs : (s.pages[i]).slots with
  | nil => simp [Page.nVectors, Page.anchor, hs]
  | cons a rest => simp [Page.nVectors, Page.anchor, hs]

/-- The refreshed anchor cache has a cell for every page, and the cells of the
non-empty pages hold their anchors. -/
theorem updateAnchorCache_spec [Inhabited V] (h : s.Uniform) (cachedVectors : List V) :
    ∃ cached, updateAnchorCacheSingleThreaded s cachedVectors = some cached ∧
      s.nPages ≤ cached.length ∧ AnchorsCached s.pages cached := by
  obtain ⟨cached, hrun, hlen, hget⟩ := ListUpdate.foldlM_overwrite
    (fun cached i => (s.pageAt? i).map fun p => match p.anchor with
      | none => cached
      | some a => cached.set i a)
    (fun i => (s.pages[i]?).bind Page.anchor) s.nPages
    (fun i hi acc => by
      have hlt : i < s.pages.length := by rwa [h.length_pages]
      rw [h.pageAt?_eq, List.getElem?_eq_getElem hlt]
      rfl)
    (cachedVectors ++ List.replicate (s.nPages - cachedVectors.length) default)
  have hsize : s.nPages ≤ cached.length := by
    rw [hlen, List.length_append, List.length_replicate]
    omega
  refine ⟨cached, hrun, hsize, fun i p a hp ha => ?_⟩
  have hi : i < s.nPages := by
    rw [← h.length_pages]
    exact (List.getElem?_eq_some_iff.mp hp).1
  obtain ⟨b, hb⟩ : ∃ b, (cachedVectors ++
      List.replicate (s.nPages - cachedVectors.length) default)[i]? = some b :=
    ⟨_, List.getElem?_eq_getElem (hlen ▸ hi.trans_le hsize)⟩
  rw [hget i, if_pos hi, hb]
  simp [hp, ha]

/-- A refresh of the anchor cache reads every page below `n_pages`. -/
theorem exists_page_of_updateAnchorCache [Inhabited V] {cachedVectors cached : List V}
    (hrun : updateAnchorCacheSingleThreaded s cachedVectors = some cached) {i : Nat}
    (hi : i < s.nPages) : ∃ p, s.pageAt? i = some p := by
  obtain ⟨c, c', hstep⟩ := ListUpdate.exists_step_of_foldlM hrun (List.mem_range.mpr hi)
  obtain ⟨p, hp, -⟩ := Option.map_eq_some_iff.mp hstep
  exact ⟨p, hp⟩

/-- What the loops over the radius cache compute from coherent caches. -/
theorem Coherent.anchorDistances_eq (dist : V → V → R) {pages : List (Page V R)}
    {cachedVectors : List V} {cachedMaxDists : List (IdTaggedDistance R)}
    (h : Coherent pages cachedVectors cachedMaxDists) (query : V) :
    ∃ f, (∀ e ∈ cachedMaxDists, ((cachedVectors[e.second]?).map fun a =>
        (⟨dist query a, e.second⟩ : IdTaggedDistance R)) = some (f e)) ∧
      cachedMaxDists.map f = anchorDistances dist pages query := by
  let toAnchor : IdTaggedDistance R → R := fun e =>
    ((cachedVectors[e.second]?).map (dist query)).getD e.first
  refine ⟨fun e => ⟨toAnchor e, e.second⟩, fun e he => ?_, ?_⟩
  · rw [h.maxDists] at he
    obtain ⟨p, a, hp, ha, -⟩ := mem_perPage.mp he
    simp [toAnchor, h.vectors e.second p a hp ha]
  · rw [h.maxDists]
    refine map_perPage pages _ _ toAnchor fun i p a hp ha => ?_
    simp [toAnchor, h.vectors i p a hp ha]

/-- From coherent caches the buffer is filled with the distances to all anchors
in ascending order. -/
theorem fillDistToAnchorBuffer_eq [LinearOrder R] (dist : V → V → R)
    {pages : List (Page V R)} {cachedVectors : List V}
    {cachedMaxDists : List (IdTaggedDistance R)}
    (h : Coherent pages cachedVectors cachedMaxDists) (query : V) :
    fillDistToAnchorBufferSingleThreaded dist cachedVectors cachedMaxDists query =
      some ((anchorDistances dist pages query).insertionSort (· ≤ ·)) := by
  obtain ⟨f, hf, hmap⟩ := h.anchorDistances_eq dist query
  rw [fillDistToAnchorBufferSingleThreaded, ListUpdate.mapM_eq_some_map hf, hmap, Option.map_some]

end Uniform

end Spheres.Execution
