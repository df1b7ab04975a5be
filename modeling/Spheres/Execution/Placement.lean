import Spheres.Execution.PrefillExact

/-!
# Where a bulk load puts each vector

The pages that a list of pairs is to become (`groups`) are told apart by what is
left when a page is made: it keeps the order of the input, its first pair goes
to slot 0, and nothing that stays left is nearer than the radius of the page.
`Placement` says the same of the pages of a storage and of the positions in the
input, and `batchPrefillSingleThreaded_placement` of the load with one thread.
-/

namespace Spheres.Execution

open Library Library.EraseIf Library.Selection

variable {V R : Type*} [Zero R] [LinearOrder R] {dist : DistFunc V R} {k : Nat}

/-! ## The pages one after the other -/

section Groups

variable {slots : List (Nat × V)}

theorem chosen_group (dist : DistFunc V R) (hk : 0 < k) (hne : slots ≠ []) :
    Chosen dist (slots.map Prod.snd) (nearest dist k (slots.map Prod.snd))
      (groupPage dist k slots).maxDist :=
  chosen_nearest dist hk (by simpa using hne)

theorem groupPage_add_afterGroup (dist : DistFunc V R) (hk : 0 < k) (hne : slots ≠ []) :
    ((groupPage dist k slots).slots : Multiset (Nat × V)) + afterGroup dist k slots = slots :=
  (chosen_group dist hk hne).packed_add_eraseIf

theorem head?_groupPage (dist : DistFunc V R) (hk : 0 < k) (hne : slots ≠ []) :
    (groupPage dist k slots).slots.head? = slots.head? :=
  (chosen_group dist hk hne).head?_packed hne _

/-- All pairs are on the pages. -/
theorem contents_groups (dist : DistFunc V R) (hk : 0 < k) (slots : List (Nat × V)) :
    contents (groups dist k slots) = slots := by
  induction hn : slots.length using Nat.strongRecOn generalizing slots with
  | ind n ih =>
    subst hn
    by_cases hne : slots = []
    · subst hne
      rw [groups_nil, contents_nil, Multiset.coe_nil]
    obtain ⟨-, hlen⟩ := length_afterGroup dist hk hne
    have hpos := List.length_pos_of_ne_nil hne
    rw [groups_cons hk hne, contents_cons, ih _ (by omega) _ rfl]
    exact groupPage_add_afterGroup dist hk hne

/-- A page is made for the first of the pairs that are left. -/
theorem groups_split (dist : DistFunc V R) (hk : 0 < k) {i : Nat} {p : Page V R}
    (hp : (groups dist k slots)[i]? = some p) :
    ∃ left : List (Nat × V), left.Sublist slots ∧ left ≠ [] ∧ p = groupPage dist k left ∧
      (left : Multiset (Nat × V)) + contents ((groups dist k slots).take i) = slots ∧
      (groups dist k slots).drop (i + 1) = groups dist k (afterGroup dist k left) := by
  induction i generalizing slots with
  | zero =>
    by_cases hne : slots = []
    · simp [hne] at hp
    rw [groups_cons hk hne] at hp ⊢
    refine ⟨slots, List.Sublist.refl _, hne, (Option.some.inj hp).symm, ?_, rfl⟩
    rw [List.take_zero, contents_nil, add_zero]
  | succ i ih =>
    by_cases hne : slots = []
    · simp [hne] at hp
    rw [groups_cons hk hne, List.getElem?_cons_succ] at hp
    obtain ⟨left, hsub, hleft, heq, hcontents, hdrop⟩ := ih hp
    rw [groups_cons hk hne, List.take_succ_cons, List.drop_succ_cons, contents_cons]
    refine ⟨left, hsub.trans (eraseIf_sublist _ _ _), hleft, heq, ?_, hdrop⟩
    rw [add_left_comm, hcontents, groupPage_add_afterGroup dist hk hne]

/-- What stays left is not nearer than the radius of the page. -/
theorem le_of_mem_afterGroup (dist : DistFunc V R) (hk : 0 < k) {a : V}
    (ha : (groupPage dist k slots).anchor = some a) {s : Nat × V}
    (hs : s ∈ afterGroup dist k slots) : (groupPage dist k slots).maxDist ≤ dist s.2 a := by
  have hne : slots ≠ [] := by
    intro hnil
    subst hnil
    cases hs
  obtain ⟨slot, hslot, rfl⟩ := Option.map_eq_some_iff.mp ha
  rw [head?_groupPage dist hk hne] at hslot
  rw [afterGroup, eraseIf_eq_filterMap] at hs
  obtain ⟨j, hj, hget⟩ := List.mem_filterMap.mp hs
  have hout : j ∉ (nearest dist k (slots.map Prod.snd)).map (·.second) := by
    have hcontains := (List.mem_filter.mp hj).2
    simpa using hcontains
  have hfirst : (toFirst dist (slots.map Prod.snd) j).first = dist s.2 slot.2 :=
    toFirst_first (by rw [List.getElem?_map, hget]; rfl) (by rw [List.head?_map, hslot]; rfl)
  -- the entry of `s` was not among the smallest ones
  obtain ⟨-, rest, hall, hle⟩ := nearest_isSmallest dist k (slots.map Prod.snd)
  have hmem : toFirst dist (slots.map Prod.snd) j ∈ candidates dist (slots.map Prod.snd) := by
    refine mem_candidates.mpr ⟨?_, rfl⟩
    rw [List.length_map]
    exact (List.getElem?_eq_some_iff.mp hget).1
  rw [hall] at hmem
  have hrest := (Multiset.mem_add.mp hmem).resolve_left fun hsel =>
    hout (List.mem_map.mpr ⟨_, Multiset.mem_coe.mp hsel, rfl⟩)
  obtain ⟨e, he, hmax⟩ := (chosen_group dist hk hne).max.1
  rw [hmax, ← hfirst]
  exact IdTaggedDistance.first_le_of_le (hle e (Multiset.mem_coe.mpr he) _ hrest)

/-- The number of pages is the number of pairs divided by the capacity, rounded up. -/
theorem length_groups_eq (dist : DistFunc V R) (hk : 0 < k) (slots : List (Nat × V)) :
    (groups dist k slots).length = (slots.length + k - 1) / k := by
  induction hn : slots.length using Nat.strongRecOn generalizing slots with
  | ind n ih =>
    subst hn
    by_cases hne : slots = []
    · subst hne
      simp only [groups_nil, List.length_nil, Nat.zero_add]
      exact (Nat.div_eq_of_lt (by omega)).symm
    obtain ⟨-, hlen⟩ := length_afterGroup dist hk hne
    have hpos := List.length_pos_of_ne_nil hne
    rw [groups_cons hk hne, List.length_cons, ih _ (by omega) _ rfl]
    rcases Nat.lt_or_ge k slots.length with hmany | hfew
    · have hsum : slots.length + k - 1 = (afterGroup dist k slots).length + k - 1 + k := by omega
      rw [hsum, Nat.add_div_right _ hk]
    · have hrest : (afterGroup dist k slots).length = 0 := by omega
      have hsum : slots.length + k - 1 = slots.length - 1 + k := by omega
      rw [hrest, hsum, Nat.add_div_right _ hk, Nat.div_eq_of_lt (by omega),
        Nat.div_eq_of_lt (by omega)]

end Groups

/-! ## Positions instead of ids -/

section Positions

/-- The same page with other ids. -/
def relabel (f : Nat → Nat) (p : Page V R) : Page V R :=
  { p with slots := p.slots.map (Prod.map f id) }

omit [Zero R] [LinearOrder R] in
theorem packed_map (f : Nat → Nat) (slots : List (Nat × V)) (indices : List Nat) (maxDist : R) :
    packed (slots.map (Prod.map f id)) indices maxDist = relabel f (packed slots indices maxDist) := by
  simp only [packed, relabel, List.map_filterMap, List.getElem?_map]

/-- The ids have no influence on the choice. -/
theorem groups_map (dist : DistFunc V R) (hk : 0 < k) (f : Nat → Nat) (slots : List (Nat × V)) :
    groups dist k (slots.map (Prod.map f id)) = (groups dist k slots).map (relabel f) := by
  have hvectors : ∀ slots : List (Nat × V),
      (slots.map (Prod.map f id)).map Prod.snd = slots.map Prod.snd := by
    intro slots
    rw [List.map_map]
    rfl
  induction hn : slots.length using Nat.strongRecOn generalizing slots with
  | ind n ih =>
    subst hn
    by_cases hne : slots = []
    · subst hne
      rw [List.map_nil, groups_nil, List.map_nil]
    obtain ⟨-, hlen⟩ := length_afterGroup dist hk hne
    have hpos := List.length_pos_of_ne_nil hne
    have hpage : groupPage dist k (slots.map (Prod.map f id)) = relabel f (groupPage dist k slots) := by
      rw [groupPage, hvectors, packed_map]
      rfl
    have hrest : afterGroup dist k (slots.map (Prod.map f id)) =
        (afterGroup dist k slots).map (Prod.map f id) := by
      rw [afterGroup, hvectors, eraseIf_map]
      rfl
    rw [groups_cons hk (by simpa using hne), groups_cons hk hne, List.map_cons, hpage, hrest,
      ih _ (by omega) _ rfl]

/-- The ids on the pages, page by page. -/
def rowsOf (pages : List (Page V R)) : List (List Nat) := pages.map fun p => p.slots.map Prod.fst

omit [Zero R] [LinearOrder R] in
theorem flatten_rowsOf (pages : List (Page V R)) :
    ((rowsOf pages).flatten : Multiset Nat) = (contents pages).map Prod.fst := by
  induction pages with
  | nil => rfl
  | cons p pages ih =>
    rw [contents_cons, Multiset.map_add, ← ih, Multiset.map_coe, Multiset.coe_add]
    rfl

/-- The vectors with their positions for ids. -/
def positioned (vectors : List V) : List (Nat × V) := (List.range vectors.length).zip vectors

theorem length_positioned (vectors : List V) : (positioned vectors).length = vectors.length := by
  rw [positioned, List.length_zip, List.length_range, Nat.min_self]

theorem map_fst_positioned (vectors : List V) :
    (positioned vectors).map Prod.fst = List.range vectors.length :=
  List.map_fst_zip (List.length_range.le)

theorem mem_positioned {vectors : List V} {s : Nat × V} (h : s ∈ positioned vectors) :
    vectors[s.1]? = some s.2 := by
  obtain ⟨i, hi, rfl⟩ := List.mem_iff_getElem.mp h
  rw [length_positioned] at hi
  simp [positioned, hi]

/-- The pairs of a load are the positioned vectors with their ids. -/
theorem zip_eq_map_positioned {ids : List Nat} {vectors : List V}
    (hlength : ids.length = vectors.length) :
    ids.zip vectors = (positioned vectors).map (Prod.map (fun j => ids.getD j 0) id) := by
  apply List.ext_getElem
  · rw [List.length_map, length_positioned, List.length_zip, hlength, Nat.min_self]
  · intro i hi hi'
    rw [List.length_zip] at hi
    have hids : i < ids.length := by omega
    simp [positioned, hids]

end Positions

/-! ## The pages of a storage -/

section Placement

theorem SamePage.exactRadius {p q : Page V R} (h : SamePage p q) (hq : q.ExactRadius dist) :
    p.ExactRadius dist := by
  intro hne
  have hradii : p.radii dist = q.radii dist := by
    ext d
    simp only [Page.radii, Page.anchor, h.head, h.slots.mem_iff]
  rw [hradii, h.maxDist]
  apply hq
  intro hnil
  exact hne (hnil ▸ h.slots).eq_nil

/-- `rows` are the positions of the input that are stored on each page. -/
structure Placement (dist : DistFunc V R) (capacity : Nat) (pairs : List (Nat × V))
    (rows : List (List Nat)) (pages : List (Page V R)) : Prop where
  count : rows.length = (pairs.length + capacity - 1) / capacity
  once : rows.flatten.Perm (List.range pairs.length)
  stored : ∀ (i : Nat) (row : List Nat), rows[i]? = some row → ∃ p, pages[i]? = some p ∧
    p.slots.Perm (row.filterMap (pairs[·]?)) ∧ p.slots.head? = row.head?.bind (pairs[·]?)
  others : ∀ (i : Nat) (p : Page V R), rows.length ≤ i → pages[i]? = some p → p.slots = []
  full : ∀ (i : Nat) (p : Page V R), i + 1 < rows.length → pages[i]? = some p →
    p.nVectors = capacity
  /-- Slot 0 has the first vector that is not on an earlier page. -/
  first : ∀ (i : Nat) (row : List Nat), rows[i]? = some row →
    ∃ j, row.head? = some j ∧ ∀ j' < j, j' ∈ (rows.take i).flatten
  radius : ∀ p ∈ pages, p.ExactRadius dist
  later : ∀ (i i' : Nat) (p q : Page V R) (a : V), i < i' → pages[i]? = some p →
    pages[i']? = some q → p.anchor = some a → ∀ s ∈ q.slots, p.maxDist ≤ dist s.2 a

variable {ids : List Nat} {vectors : List V} {total : Nat} {pages : List (Page V R)}

/-- The pages of a layout have exact radii, and a later page has nothing nearer
than the radius of an earlier one. -/
theorem layout_radii (dist : DistFunc V R) (hk : 0 < k) (pairs : List (Nat × V)) (total : Nat) :
    (∀ p ∈ layout dist k pairs total, p.ExactRadius dist) ∧
      ∀ (i i' : Nat) (p q : Page V R) (a : V), i < i' → (layout dist k pairs total)[i]? = some p →
        (layout dist k pairs total)[i']? = some q → p.anchor = some a →
        ∀ s ∈ q.slots, p.maxDist ≤ dist s.2 a := by
  constructor
  · intro p hp
    rcases List.mem_append.mp hp with hp | hp
    · obtain ⟨i, hi⟩ := List.mem_iff_getElem?.mp hp
      obtain ⟨left, -, hne, rfl, -⟩ := groups_split dist hk hi
      exact (chosen_group dist hk hne).exactRadius
    · obtain ⟨-, rfl⟩ := List.mem_replicate.mp hp
      exact fun hne => absurd rfl hne
  · intro i i' p q a hlt hp hq ha s hs
    have hi' : i' < (groups dist k pairs).length := by
      by_contra hge
      rw [layout, List.getElem?_append_right (by omega)] at hq
      obtain ⟨-, rfl⟩ := List.mem_replicate.mp (List.mem_of_getElem? hq)
      cases hs
    rw [layout, List.getElem?_append_left (by omega)] at hp hq
    obtain ⟨left, -, -, rfl, -, hdrop⟩ := groups_split dist hk hp
    -- the later page is made from what was left after the earlier one
    have hmem : q ∈ groups dist k (afterGroup dist k left) := by
      rw [← hdrop]
      refine List.mem_of_getElem? (i := i' - (i + 1)) ?_
      rw [List.getElem?_drop, Nat.add_sub_cancel' (by omega), hq]
    have hcontents : s ∈ contents (groups dist k (afterGroup dist k left)) :=
      mem_contents.mpr ⟨q, hmem, hs⟩
    rw [contents_groups dist hk, Multiset.mem_coe] at hcontents
    exact le_of_mem_afterGroup dist hk ha hcontents

omit [Zero R] [LinearOrder R] in
theorem getElem?_of_samePage {pages' : List (Page V R)}
    (h : List.Forall₂ SamePage pages pages') {i : Nat} {p : Page V R} (hp : pages[i]? = some p) :
    ∃ p', pages'[i]? = some p' ∧ SamePage p p' := by
  obtain ⟨hlength, hget⟩ := List.forall₂_iff_get.mp h
  obtain ⟨hi, rfl⟩ := List.getElem?_eq_some_iff.mp hp
  exact ⟨_, List.getElem?_eq_getElem (hlength ▸ hi), hget i hi (hlength ▸ hi)⟩

/-- The pair at the position of a slot. -/
theorem getElem?_of_mem_group (hk : 0 < k) (hlength : ids.length = vectors.length) {q : Page V R}
    (hq : q ∈ groups dist k (positioned vectors)) {s : Nat × V} (hs : s ∈ q.slots) :
    (ids.zip vectors)[s.1]? = some (Prod.map (fun j => ids.getD j 0) id s) := by
  have hmem : s ∈ contents (groups dist k (positioned vectors)) := mem_contents.mpr ⟨q, hq, hs⟩
  rw [contents_groups dist hk, Multiset.mem_coe] at hmem
  have hv := mem_positioned hmem
  have hid : s.1 < ids.length := hlength ▸ (List.getElem?_eq_some_iff.mp hv).1
  simp [List.getElem?_zip_eq_some, hv, hid]

/-- All positions before the first one of a row are in earlier rows. -/
theorem first_of_row (hk : 0 < k) {i : Nat} {row : List Nat}
    (hrow : (rowsOf (groups dist k (positioned vectors)))[i]? = some row) :
    ∃ j, row.head? = some j ∧
      ∀ j' < j, j' ∈ ((rowsOf (groups dist k (positioned vectors))).take i).flatten := by
  rw [rowsOf, List.getElem?_map] at hrow
  obtain ⟨q, hq, rfl⟩ := Option.map_eq_some_iff.mp hrow
  obtain ⟨left, hsub, hne, rfl, hcontents, -⟩ := groups_split dist hk hq
  obtain ⟨s, rest, rfl⟩ := List.exists_cons_of_ne_nil hne
  refine ⟨s.1, by rw [List.head?_map, head?_groupPage dist hk hne]; rfl, fun j' hj' => ?_⟩
  have hsorted : ((positioned vectors).map Prod.fst).Pairwise (· < ·) := by
    rw [map_fst_positioned]
    exact List.pairwise_lt_range
  have hpos : s.1 < vectors.length := by
    have hs := mem_positioned (hsub.subset List.mem_cons_self)
    exact (List.getElem?_eq_some_iff.mp hs).1
  -- what is left is in order, so the position is not among it
  have hmem : j' ∈ (positioned vectors).map Prod.fst := by
    rw [map_fst_positioned]
    exact List.mem_range.mpr (hj'.trans hpos)
  obtain ⟨t, ht, rfl⟩ := List.mem_map.mp hmem
  rw [← Multiset.mem_coe, ← hcontents, Multiset.mem_add] at ht
  rcases ht with ht | ht
  · exfalso
    have hleft := hsorted.sublist (hsub.map Prod.fst)
    rw [List.map_cons] at hleft
    rcases List.mem_cons.mp (Multiset.mem_coe.mp ht) with rfl | ht
    · exact lt_irrefl _ hj'
    · exact lt_asymm hj' (List.rel_of_pairwise_cons hleft (List.mem_map_of_mem ht))
  · rw [rowsOf, ← List.map_take, ← Multiset.mem_coe]
    exact (flatten_rowsOf _).symm ▸ Multiset.mem_map_of_mem Prod.fst ht

/-- The rows of a layout. -/
theorem layout_placement (hk : 0 < k) (hlength : ids.length = vectors.length)
    (hsame : List.Forall₂ SamePage pages (layout dist k (ids.zip vectors) total)) :
    Placement dist k (ids.zip vectors) (rowsOf (groups dist k (positioned vectors))) pages := by
  have hpairs := zip_eq_map_positioned hlength
  have hgroups : groups dist k (ids.zip vectors) =
      (groups dist k (positioned vectors)).map (relabel fun j => ids.getD j 0) := by
    rw [hpairs]
    exact groups_map dist hk _ _
  have hcount : (rowsOf (groups dist k (positioned vectors))).length =
      (groups dist k (ids.zip vectors)).length := by
    rw [hgroups, rowsOf, List.length_map, List.length_map]
  have hsize : (ids.zip vectors).length = vectors.length := by
    rw [hpairs, List.length_map, length_positioned]
  obtain ⟨hradius, hlater⟩ := layout_radii dist hk (ids.zip vectors) total
  refine ⟨?_, ?_, ?_, ?_, ?_, fun i row hrow => first_of_row hk hrow, ?_, ?_⟩
  · rw [hcount, length_groups_eq dist hk]
  · rw [← Multiset.coe_eq_coe, flatten_rowsOf, contents_groups dist hk, Multiset.map_coe,
      map_fst_positioned, hsize]
  · intro i row hrow
    rw [rowsOf, List.getElem?_map] at hrow
    obtain ⟨q, hq, rfl⟩ := Option.map_eq_some_iff.mp hrow
    have hlayout : (layout dist k (ids.zip vectors) total)[i]? =
        some (relabel (fun j => ids.getD j 0) q) := by
      have hq' := congrArg (Option.map (relabel fun j => ids.getD j 0)) hq
      rw [← List.getElem?_map, ← hgroups] at hq'
      rw [layout, List.getElem?_append_left (List.getElem?_eq_some_iff.mp hq').1]
      exact hq'
    obtain ⟨p, hp, hsamePage⟩ := getElem?_of_samePage
      (hsame.flip.imp fun _ _ h => SamePage.symm h) hlayout
    have hslot := fun s hs => getElem?_of_mem_group (s := s) hk hlength (List.mem_of_getElem? hq) hs
    refine ⟨p, hp, ?_, ?_⟩
    · have hrow' : (q.slots.map Prod.fst).filterMap ((ids.zip vectors)[·]?) =
          q.slots.map (Prod.map (fun j => ids.getD j 0) id) := by
        rw [List.filterMap_map, ← List.filterMap_eq_map]
        exact List.filterMap_congr hslot
      rw [hrow']
      exact hsamePage.slots.symm
    · rw [← hsamePage.head, relabel, List.head?_map, List.head?_map]
      cases hhead : q.slots.head? with
      | none => rfl
      | some s => exact (hslot s (List.mem_of_mem_head? hhead)).symm
  · intro i p hi hp
    obtain ⟨p', hp', hsamePage⟩ := getElem?_of_samePage hsame hp
    rw [layout, List.getElem?_append_right (hcount ▸ hi)] at hp'
    obtain ⟨-, rfl⟩ := List.mem_replicate.mp (List.mem_of_getElem? hp')
    exact hsamePage.slots.eq_nil
  · intro i p hi hp
    obtain ⟨p', hp', hsamePage⟩ := getElem?_of_samePage hsame hp
    rw [hcount] at hi
    rw [layout, List.getElem?_append_left (by omega)] at hp'
    have hfull := (length_groups dist hk (ids.zip vectors)).2 i p' _ hp' (List.getElem?_eq_getElem hi)
    exact hsamePage.slots.length_eq.trans hfull
  · intro p hp
    obtain ⟨i, hi⟩ := List.mem_iff_getElem?.mp hp
    obtain ⟨p', hp', hsamePage⟩ := getElem?_of_samePage hsame hi
    exact hsamePage.exactRadius (hradius p' (List.mem_of_getElem? hp'))
  · intro i i' p q a hlt hp hq ha s hs
    obtain ⟨p', hp', hsamePage⟩ := getElem?_of_samePage hsame hp
    obtain ⟨q', hq', hsamePage'⟩ := getElem?_of_samePage hsame hq
    rw [hsamePage.maxDist]
    refine hlater i i' p' q' a hlt hp' hq' ?_ s (hsamePage'.slots.mem_iff.mp hs)
    rw [← ha, Page.anchor, Page.anchor, hsamePage.head]

end Placement

end Spheres.Execution
