import Mathlib.Data.List.Forall2
import Mathlib.Order.Interval.Finset.Nat
import Mathlib.Order.Interval.Multiset
import Spheres.Execution.Prefill
import Spheres.Library.Selection
import Spheres.Storage.Contents

/-!
# What a bulk load is for

`groups` says which pages a list of pairs is to become: the first pair that is
left goes to slot 0 of the next page, and the page is filled with the pairs
nearest to it, ties by position. Both loads are compared with it up to the order
of the slots behind slot 0. The weaker `Chosen` says only that the pairs on a
page are distinct, that the first one is in front and that the radius is right.
-/

namespace Spheres.Execution

open Library Library.EraseIf Library.Selection

variable {V R : Type*}

section Candidates

variable [Zero R]

/-- The distance of the vector at a position from the first one. -/
def toFirst (dist : V → V → R) (vectors : List V) (i : Nat) : IdTaggedDistance R :=
  ⟨((vectors[i]?).bind fun v => vectors.head?.map fun a => dist v a).getD 0, i⟩

/-- All vectors, with their distances from the first one. -/
def candidates (dist : V → V → R) (vectors : List V) : Multiset (IdTaggedDistance R) :=
  (Multiset.Ico 0 vectors.length).map (toFirst dist vectors)

theorem toFirst_injective (dist : V → V → R) (vectors : List V) :
    Function.Injective (toFirst dist vectors) :=
  fun _ _ h => congrArg IdTaggedDistance.second h

theorem mem_candidates {dist : V → V → R} {vectors : List V} {e : IdTaggedDistance R} :
    e ∈ candidates dist vectors ↔ e.second < vectors.length ∧ e = toFirst dist vectors e.second := by
  rw [candidates, Multiset.mem_map]
  constructor
  · rintro ⟨i, hi, rfl⟩
    exact ⟨(Multiset.mem_Ico.mp hi).2, rfl⟩
  · rintro ⟨hlt, heq⟩
    exact ⟨e.second, Multiset.mem_Ico.mpr ⟨Nat.zero_le _, hlt⟩, heq.symm⟩

theorem nodup_candidates (dist : V → V → R) (vectors : List V) :
    (candidates dist vectors).Nodup :=
  Multiset.nodup_Ico.map (toFirst_injective dist vectors)

@[simp] theorem card_candidates (dist : V → V → R) (vectors : List V) :
    (candidates dist vectors).card = vectors.length := by
  rw [candidates, Multiset.card_map]
  exact Nat.card_Ico 0 vectors.length

theorem toFirst_first {dist : V → V → R} {vectors : List V} {i : Nat} {v a : V}
    (hv : vectors[i]? = some v) (ha : vectors.head? = some a) :
    (toFirst dist vectors i).first = dist v a := by
  simp [toFirst, hv, ha]

variable [LinearOrder R] (dist : DistFunc V R) (vectors : List V)

theorem toFirst_zero : toFirst dist vectors 0 = .valueInit := by
  cases vectors with
  | nil => rfl
  | cons a rest => simp [toFirst, dist.self_eq, IdTaggedDistance.valueInit]

theorem toFirst_nonneg (i : Nat) : 0 ≤ (toFirst dist vectors i).first := by
  cases hv : vectors[i]? with
  | none => simp [toFirst, hv]
  | some v =>
    cases ha : vectors.head? with
    | none => simp [toFirst, ha]
    | some a =>
      rw [toFirst_first hv ha]
      exact dist.nonneg v a

variable {dist vectors}

theorem valueInit_mem_candidates (h : vectors ≠ []) :
    (.valueInit : IdTaggedDistance R) ∈ candidates dist vectors :=
  mem_candidates.mpr ⟨List.length_pos_of_ne_nil h, (toFirst_zero dist vectors).symm⟩

theorem nonneg_of_mem_candidates {e : IdTaggedDistance R} (h : e ∈ candidates dist vectors) :
    0 ≤ e.first := by
  rw [(mem_candidates.mp h).2]
  exact toFirst_nonneg dist vectors _

/-- In a sorted choice the first vector comes first. -/
theorem head?_of_sorted {l : List (IdTaggedDistance R)} (hSorted : l.Pairwise (· ≤ ·))
    (hmem : .valueInit ∈ l) (hnonneg : ∀ e ∈ l, 0 ≤ e.first) : l.head? = some .valueInit := by
  cases l with
  | nil => cases hmem
  | cons e rest =>
    have hle : e ≤ .valueInit := by
      rcases List.mem_cons.mp hmem with rfl | hmem
      · exact le_rfl
      · exact List.rel_of_pairwise_cons hSorted hmem
    rw [List.head?_cons]
    exact congrArg some (le_antisymm hle
      (IdTaggedDistance.valueInit_le (hnonneg e List.mem_cons_self)))

omit [Zero R] in
/-- The last entry of a sorted list has the largest distance. -/
theorem isGreatest_getLast? {l : List (IdTaggedDistance R)} (hSorted : l.Pairwise (· ≤ ·))
    {last : IdTaggedDistance R} (hlast : l.getLast? = some last) :
    IsGreatest {d | ∃ e ∈ l, d = e.first} last.first := by
  obtain ⟨front, rfl⟩ := List.getLast?_eq_some_iff.mp hlast
  refine ⟨⟨last, by simp, rfl⟩, ?_⟩
  rintro d ⟨e, he, rfl⟩
  apply IdTaggedDistance.first_le_of_le
  rcases List.mem_append.mp he with he | he
  · exact (List.pairwise_append.mp hSorted).2.2 e he last (List.mem_singleton_self _)
  · exact (List.mem_singleton.mp he).le

end Candidates

/-! ## One page -/

/-- The page that the pairs at some positions make. -/
def packed (slots : List (Nat × V)) (indices : List Nat) (maxDist : R) : Page V R :=
  ⟨maxDist, indices.filterMap (slots[·]?)⟩

/-- A choice of distinct vectors with the first one in front, and the largest
distance from it. -/
structure Chosen [Zero R] [LinearOrder R] (dist : DistFunc V R) (vectors : List V)
    (sel : List (IdTaggedDistance R)) (maxDist : R) : Prop where
  le : (sel : Multiset (IdTaggedDistance R)) ≤ candidates dist vectors
  head : sel.head? = some .valueInit
  max : IsGreatest {d | ∃ e ∈ sel, d = e.first} maxDist

/-- Pages with the same pairs, the same pair in slot 0 and the same radius. -/
structure SamePage (p q : Page V R) : Prop where
  head : p.slots.head? = q.slots.head?
  slots : p.slots.Perm q.slots
  maxDist : p.maxDist = q.maxDist

instance [DecidableEq V] [DecidableEq R] (p q : Page V R) : Decidable (SamePage p q) :=
  decidable_of_iff
    (p.slots.head? = q.slots.head? ∧ p.slots.Perm q.slots ∧ p.maxDist = q.maxDist)
    ⟨fun ⟨h₁, h₂, h₃⟩ => ⟨h₁, h₂, h₃⟩, fun ⟨h₁, h₂, h₃⟩ => ⟨h₁, h₂, h₃⟩⟩

theorem SamePage.refl (p : Page V R) : SamePage p p := ⟨rfl, .refl _, rfl⟩

theorem SamePage.trans {p q r : Page V R} (h : SamePage p q) (h' : SamePage q r) : SamePage p r :=
  ⟨h.head.trans h'.head, h.slots.trans h'.slots, h.maxDist.trans h'.maxDist⟩

theorem SamePage.symm {p q : Page V R} (h : SamePage p q) : SamePage q p :=
  ⟨h.head.symm, h.slots.symm, h.maxDist.symm⟩

/-- Pages that agree with the same pages agree with each other. -/
theorem forall₂_samePage_of_common {pages pages' common : List (Page V R)}
    (h : List.Forall₂ SamePage pages common) (h' : List.Forall₂ SamePage pages' common) :
    List.Forall₂ SamePage pages pages' := by
  obtain ⟨hlength, hget⟩ := List.forall₂_iff_get.mp h
  obtain ⟨hlength', hget'⟩ := List.forall₂_iff_get.mp h'
  refine List.forall₂_iff_get.mpr ⟨hlength.trans hlength'.symm, fun i hi hi' => ?_⟩
  exact (hget i hi (hlength ▸ hi)).trans (hget' i hi' (hlength ▸ hi)).symm

section Page

variable [Zero R] [LinearOrder R] {dist : DistFunc V R} {vectors : List V}
  {slots : List (Nat × V)} {sel sel' : List (IdTaggedDistance R)} {maxDist maxDist' : R}

theorem Chosen.mem (h : Chosen dist vectors sel maxDist) {e : IdTaggedDistance R} (he : e ∈ sel) :
    e.second < vectors.length ∧ e = toFirst dist vectors e.second :=
  mem_candidates.mp (Multiset.mem_of_le h.le (Multiset.mem_coe.mpr he))

theorem Chosen.nodup (h : Chosen dist vectors sel maxDist) : (sel.map (·.second)).Nodup := by
  have hnodup : sel.Nodup :=
    Multiset.coe_nodup.mp (Multiset.nodup_of_le h.le (nodup_candidates dist vectors))
  refine (List.nodup_map_iff_inj_on hnodup).mpr fun e he e' he' heq => ?_
  rw [(h.mem he).2, (h.mem he').2, heq]

theorem Chosen.lt_length (h : Chosen dist vectors sel maxDist) :
    ∀ i ∈ sel.map (·.second), i < vectors.length := by
  intro i hi
  obtain ⟨e, he, rfl⟩ := List.mem_map.mp hi
  exact (h.mem he).1

theorem Chosen.ne_nil (h : Chosen dist vectors sel maxDist) : sel ≠ [] := by
  rintro rfl
  cases h.head

omit [Zero R] [LinearOrder R] in
theorem length_packed (hlt : ∀ i ∈ sel.map (·.second), i < slots.length) (d : R) :
    (packed slots (sel.map (·.second)) d).nVectors = sel.length := by
  induction sel with
  | nil => rfl
  | cons e rest ih =>
    have hi := hlt e.second (by simp)
    have ih := ih fun i hi => hlt i (List.mem_cons_of_mem _ hi)
    simp only [packed, Page.nVectors] at ih ⊢
    rw [List.map_cons, List.filterMap_cons, List.getElem?_eq_getElem hi, List.length_cons,
      List.length_cons, ih]

theorem Chosen.head?_packed (h : Chosen dist vectors sel maxDist) (hne : slots ≠ []) (d : R) :
    (packed slots (sel.map (·.second)) d).slots.head? = slots.head? := by
  obtain ⟨rest, rfl⟩ := List.head?_eq_some_iff.mp h.head
  obtain ⟨slot, slots', rfl⟩ := List.exists_cons_of_ne_nil hne
  simp [packed, IdTaggedDistance.valueInit]

/-- The page of a choice has its exact radius. -/
theorem Chosen.exactRadius (h : Chosen dist (slots.map Prod.snd) sel maxDist) :
    (packed slots (sel.map (·.second)) maxDist).ExactRadius dist := by
  intro _
  have hne : slots ≠ [] := by
    intro hnil
    have hlt := h.lt_length 0 (List.mem_map.mpr ⟨_, List.mem_of_mem_head? h.head, rfl⟩)
    simp [hnil] at hlt
  obtain ⟨slot, slots', rfl⟩ := List.exists_cons_of_ne_nil hne
  have hanchor : (packed (slot :: slots') (sel.map (·.second)) maxDist).anchor = some slot.2 := by
    rw [Page.anchor, h.head?_packed hne]
    rfl
  -- the distances of the slots are the distances of the chosen entries
  have hradii : (packed (slot :: slots') (sel.map (·.second)) maxDist).radii dist =
      {d | ∃ e ∈ sel, d = e.first} := by
    have hfirst : ∀ e ∈ sel, ∀ s, (slot :: slots')[e.second]? = some s →
        e.first = dist s.2 slot.2 := by
      intro e he s hs
      rw [(h.mem he).2]
      refine toFirst_first (by rw [List.getElem?_map, hs]; rfl) ?_
      rfl
    ext d
    constructor
    · rintro ⟨a, ha, s, hs, rfl⟩
      obtain rfl : slot.2 = a := Option.some.inj (hanchor.symm.trans ha)
      obtain ⟨i, hi, hs⟩ := List.mem_filterMap.mp hs
      obtain ⟨e, he, rfl⟩ := List.mem_map.mp hi
      exact ⟨e, he, (hfirst e he s hs).symm⟩
    · rintro ⟨e, he, rfl⟩
      have hlt := (h.mem he).1
      rw [List.length_map] at hlt
      refine ⟨slot.2, hanchor, _, List.mem_filterMap.mpr
        ⟨e.second, List.mem_map_of_mem he, List.getElem?_eq_getElem hlt⟩, ?_⟩
      exact hfirst e he _ (List.getElem?_eq_getElem hlt)
  show IsGreatest ((packed (slot :: slots') (sel.map (·.second)) maxDist).radii dist) maxDist
  rw [hradii]
  exact h.max

/-- The pairs on the page and the pairs that are left are the pairs there were. -/
theorem Chosen.packed_add_eraseIf (h : Chosen dist (slots.map Prod.snd) sel maxDist) :
    ((packed slots (sel.map (·.second)) maxDist).slots : Multiset (Nat × V)) +
      (eraseIf (sel.map (·.second)).contains 0 slots : Multiset (Nat × V)) = slots := by
  refine filterMap_add_eraseIf h.nodup fun i hi => ?_
  have hlt := h.lt_length i hi
  rwa [List.length_map] at hlt

/-- Two choices of the same entries make the same page and leave the same pairs. -/
theorem Chosen.samePage (h : Chosen dist vectors sel maxDist)
    (h' : Chosen dist vectors sel' maxDist') (hperm : sel.Perm sel') (hne : slots ≠ []) :
    SamePage (packed slots (sel.map (·.second)) maxDist)
        (packed slots (sel'.map (·.second)) maxDist') ∧
      eraseIf (sel.map (·.second)).contains 0 slots =
        eraseIf (sel'.map (·.second)).contains 0 slots := by
  refine ⟨⟨?_, (hperm.map _).filterMap _, ?_⟩, eraseIf_congr ?_ 0 slots⟩
  · rw [h.head?_packed hne, h'.head?_packed hne]
  · have hset : {d | ∃ e ∈ sel', d = e.first} = {d | ∃ e ∈ sel, d = e.first} := by
      ext d
      simp only [Set.mem_ofPred_eq, hperm.mem_iff]
    exact h.max.unique (hset ▸ h'.max)
  · intro i
    rw [Bool.eq_iff_iff, List.contains_iff_mem, List.contains_iff_mem, (hperm.map _).mem_iff]

end Page

/-! ## All pages -/

section Groups

variable [Zero R] [LinearOrder R]

/-- The entries of the first vector and of the nearest others, `k` together. -/
def nearest (dist : V → V → R) (k : Nat) (vectors : List V) : List (IdTaggedDistance R) :=
  ((candidates dist vectors).sort).take k

/-- The page for the first pair and the nearest others. -/
def groupPage (dist : V → V → R) (k : Nat) (slots : List (Nat × V)) : Page V R :=
  let sel := nearest dist k (slots.map Prod.snd)
  packed slots (sel.map (·.second)) ((sel.getLast?.map (·.first)).getD 0)

/-- The pairs that are left after the page for the first one. -/
def afterGroup (dist : V → V → R) (k : Nat) (slots : List (Nat × V)) : List (Nat × V) :=
  eraseIf ((nearest dist k (slots.map Prod.snd)).map (·.second)).contains 0 slots

variable {dist : DistFunc V R} {k : Nat} {vectors : List V}

theorem nearest_isSmallest (dist : V → V → R) (k : Nat) (vectors : List V) :
    IsSmallest id k (nearest dist k vectors : Multiset _) (candidates dist vectors) := by
  apply Covers.take ⟨0, by rw [Multiset.sort_eq, add_zero], by simp⟩
  exact Multiset.pairwise_sort _ (· ≤ ·)

/-- The nearest entries are a choice. -/
theorem chosen_nearest (dist : DistFunc V R) (hk : 0 < k) (hne : vectors ≠ []) :
    Chosen dist vectors (nearest dist k vectors)
      (((nearest dist k vectors).getLast?.map (·.first)).getD 0) := by
  have hsorted : ((candidates dist vectors).sort).Pairwise (· ≤ ·) := Multiset.pairwise_sort _ _
  have hhead : (nearest dist k vectors).head? = some .valueInit := by
    rw [nearest, List.head?_take, if_neg hk.ne']
    refine head?_of_sorted hsorted ((Multiset.mem_sort _).mpr (valueInit_mem_candidates hne)) ?_
    exact fun e he => nonneg_of_mem_candidates ((Multiset.mem_sort _).mp he)
  refine ⟨(nearest_isSmallest dist k vectors).le, hhead, ?_⟩
  have hnil : nearest dist k vectors ≠ [] := by
    intro hnil
    rw [hnil] at hhead
    cases hhead
  have hlast := List.getLast?_eq_some_getLast hnil
  rw [hlast, Option.map_some, Option.getD_some]
  exact isGreatest_getLast? hsorted.take hlast

/-- A choice of the smallest entries makes the page of the group. -/
theorem Chosen.samePage_group {slots : List (Nat × V)} {sel : List (IdTaggedDistance R)}
    {maxDist : R} (h : Chosen dist (slots.map Prod.snd) sel maxDist) (hk : 0 < k)
    (hne : slots ≠ [])
    (hsmallest : IsSmallest id k (sel : Multiset _) (candidates dist (slots.map Prod.snd))) :
    SamePage (packed slots (sel.map (·.second)) maxDist) (groupPage dist k slots) ∧
      eraseIf (sel.map (·.second)).contains 0 slots = afterGroup dist k slots := by
  have hperm := hsmallest.unique Function.injective_id
    (nearest_isSmallest dist k (slots.map Prod.snd))
  exact h.samePage (chosen_nearest dist hk (by simpa using hne)) (Multiset.coe_eq_coe.mp hperm) hne

/-- A group takes `k` pairs, or all of them when there are fewer. -/
theorem length_afterGroup (dist : DistFunc V R) (hk : 0 < k) {slots : List (Nat × V)}
    (hne : slots ≠ []) :
    (groupPage dist k slots).nVectors = min k slots.length ∧
      min k slots.length + (afterGroup dist k slots).length = slots.length := by
  have hvectors : slots.map Prod.snd ≠ [] := by simpa using hne
  have h := chosen_nearest dist hk hvectors
  have hlt : ∀ i ∈ (nearest dist k (slots.map Prod.snd)).map (·.second), i < slots.length := by
    intro i hi
    have := h.lt_length i hi
    rwa [List.length_map] at this
  have hcard := (nearest_isSmallest dist k (slots.map Prod.snd)).1
  rw [Multiset.coe_card, card_candidates, List.length_map] at hcard
  have herase := length_eraseIf h.nodup hlt
  rw [List.length_map, hcard] at herase
  exact ⟨by rw [groupPage, length_packed hlt, hcard], herase⟩

/-- The pages that a list of pairs is to become. -/
def groups (dist : DistFunc V R) (k : Nat) (slots : List (Nat × V)) : List (Page V R) :=
  if _h : slots = [] ∨ k = 0 then []
  else groupPage dist k slots :: groups dist k (afterGroup dist k slots)
termination_by slots.length
decreasing_by
  obtain ⟨hne, hk⟩ := not_or.mp _h
  have hlen := length_afterGroup dist (Nat.pos_of_ne_zero hk) hne
  have hpos := List.length_pos_of_ne_nil hne
  omega

@[simp] theorem groups_nil (dist : DistFunc V R) (k : Nat) : groups dist k [] = [] := by
  rw [groups, dif_pos (Or.inl rfl)]

theorem groups_cons (hk : 0 < k) {slots : List (Nat × V)} (hne : slots ≠ []) :
    groups dist k slots =
      groupPage dist k slots :: groups dist k (afterGroup dist k slots) := by
  rw [groups, dif_neg (not_or.mpr ⟨hne, hk.ne'⟩)]

/-- All groups but the last are full, so their number is the least possible. -/
theorem length_groups (dist : DistFunc V R) (hk : 0 < k) (slots : List (Nat × V)) :
    (groups dist k slots).length * k < slots.length + k ∧
      ∀ (i : Nat) (p q : Page V R), (groups dist k slots)[i]? = some p →
        (groups dist k slots)[i + 1]? = some q → p.nVectors = k := by
  induction hn : slots.length using Nat.strongRecOn generalizing slots with
  | ind n ih =>
    subst hn
    by_cases hne : slots = []
    · subst hne
      simp [hk]
    obtain ⟨hpage, hlen⟩ := length_afterGroup dist hk hne
    have hpos := List.length_pos_of_ne_nil hne
    obtain ⟨hcount, hfull⟩ := ih _ (by omega) (afterGroup dist k slots) rfl
    rw [groups_cons hk hne]
    constructor
    · rw [List.length_cons, Nat.succ_mul]
      by_cases hrest : afterGroup dist k slots = []
      · rw [hrest, groups_nil, List.length_nil, Nat.zero_mul]
        omega
      · have := List.length_pos_of_ne_nil hrest
        omega
    · intro i p q hp hq
      cases i with
      | zero =>
        obtain rfl : groupPage dist k slots = p := by simpa using hp
        have hrest : afterGroup dist k slots ≠ [] := by
          intro hrest
          simp [hrest] at hq
        have := List.length_pos_of_ne_nil hrest
        omega
      | succ i => exact hfull i p q (by simpa using hp) (by simpa using hq)

end Groups

end Spheres.Execution
