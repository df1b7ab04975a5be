import Spheres.Distance.PageBound
import Spheres.Execution.InsertRun

/-!
# Insertion with a correct buffer

If every page has its exact radius and the buffer holds the distances of the
new vector to all anchors, then an insertion, with all the insertions of
victims that follow from it, adds exactly the new vector and leaves every page
within its capacity and with its exact radius.
-/

namespace Spheres.Execution

open Library

variable {V R : Type*} [Zero R] [LinearOrder R] {dist : DistFunc V R}

/-- A page within its capacity and with its exact radius; an empty page has
radius zero. -/
structure ExactPage (dist : DistFunc V R) (capacity : Nat) (p : Page V R) : Prop where
  capacity : p.nVectors ≤ capacity
  radius : p.ExactRadius dist
  empty : p.slots = [] → p.maxDist = 0

instance [DecidableEq V] (capacity : Nat) (p : Page V R) : Decidable (ExactPage dist capacity p) :=
  decidable_of_iff
    (p.nVectors ≤ capacity ∧ p.ExactRadius dist ∧ (p.slots = [] → p.maxDist = 0))
    ⟨fun ⟨h₁, h₂, h₃⟩ => ⟨h₁, h₂, h₃⟩, fun ⟨h₁, h₂, h₃⟩ => ⟨h₁, h₂, h₃⟩⟩

/-- A storage with at least one page in which all pages are exact, with caches
that agree with the pages. -/
structure Core.Exact (dist : DistFunc V R) (c : Core V R) : Prop where
  uniform : c.dbStorage.Uniform
  nonempty : c.dbStorage.pages ≠ []
  pages : ∀ p ∈ c.dbStorage.pages, ExactPage dist c.dbStorage.maxNumVectorsPerPage p
  coherent : Coherent c.dbStorage.pages c.cachedVectors c.cachedMaxDists

/-- Slot 0 of every page that was not empty is what it was. -/
def AnchorsKept (pages pages' : List (Page V R)) : Prop :=
  ∀ (i : Nat) (p : Page V R), pages[i]? = some p → p.slots ≠ [] →
    ∃ p', pages'[i]? = some p' ∧ p'.slots.head? = p.slots.head?

theorem ExactPage.attained {capacity : Nat} {p : Page V R} (h : ExactPage dist capacity p) :
    p.Attained dist := by
  by_cases hne : p.slots = []
  · exact Or.inl (h.empty hne)
  · exact Or.inr (h.radius hne).1

theorem exactPage_zeroed (capacity : Nat) : ExactPage dist capacity (.zeroed : Page V R) :=
  ⟨Nat.zero_le _, fun hne => absurd rfl hne, fun _ => rfl⟩

omit [Zero R] in
theorem anchorDistances_eq_nil {pages : List (Page V R)} {dist : V → V → R} {query : V}
    (h : (anchorDistances dist pages query).insertionSort (· ≤ ·) = []) {i : Nat} {p : Page V R}
    (hp : pages[i]? = some p) : p.slots = [] := by
  by_contra hne
  obtain ⟨a, ha⟩ := exists_anchor hne
  have hmem : ⟨dist query a, i⟩ ∈ anchorDistances dist pages query :=
    mem_perPage.mpr ⟨p, a, hp, ha, rfl⟩
  rw [← List.mem_insertionSort (· ≤ ·), h] at hmem
  cases hmem

/-- A page with room for a vector that lies within its radius. -/
def Takes (dist : V → V → R) (capacity : Nat) (newVector : V) (p : Page V R) : Prop :=
  p.nVectors < capacity ∧ ∀ a ∈ p.anchor, dist newVector a ≤ p.maxDist

instance (dist : V → V → R) (capacity : Nat) (newVector : V) (p : Page V R) :
    Decidable (Takes dist capacity newVector p) :=
  inferInstanceAs (Decidable (_ ∧ _))

/-- The page that the buffer leads to takes the new vector, or the vector is not
appended to it, or the page is empty. The buffer need not belong to the vector. -/
def InsertFits (dist : V → V → R) (capacity maxNum : Nat) (pages : List (Page V R))
    (buffer : List (IdTaggedDistance R)) (newVector : V) : Prop :=
  (buffer = [] → ∀ p ∈ pages[0]?, p.slots = [] ∨ Takes dist capacity newVector p) ∧
    ∀ best ∈ buffer.head?, ∀ p ∈ pages[best.second]?, p.nVectors = 1 ∨ p.maxDist ≤ best.first ∨
      maxNum < p.nVectors + 1 ∨ Takes dist capacity newVector p

instance [DecidableEq V] (dist : V → V → R) (capacity maxNum : Nat) (pages : List (Page V R))
    (buffer : List (IdTaggedDistance R)) (newVector : V) :
    Decidable (InsertFits dist capacity maxNum pages buffer newVector) :=
  inferInstanceAs (Decidable ((_ → _) ∧ _))

/-- A page stays exact when it takes the vector or was empty. -/
theorem ExactPage.append {capacity : Nat} {p : Page V R} (h : ExactPage dist capacity p)
    (hpos : 0 < capacity) {newVector : V}
    (hfits : p.slots = [] ∨ Takes dist capacity newVector p) (newId : Nat) :
    ExactPage dist capacity (p.append newId newVector) := by
  have hlen : (p.append newId newVector).nVectors = p.nVectors + 1 := by simp [Page.nVectors]
  by_cases hnil : p.slots = []
  · refine ⟨?_, Page.exactRadius_singleton hnil (h.empty hnil) _ _, fun hq => by simp at hq⟩
    rw [hlen, Page.nVectors, hnil]
    exact hpos
  · obtain ⟨hroom, hnear⟩ := hfits.resolve_left hnil
    obtain ⟨a, ha⟩ := exists_anchor hnil
    exact ⟨hlen.trans_le hroom, h.radius.append ha (hnear a ha) newId, fun hq => by simp at hq⟩

section Fits

variable {pages : List (Page V R)} {buffer : List (IdTaggedDistance R)}
  {capacity maxNum newId grown i : Nat} {newVector : V} {p : Page V R} {g : Page V R → Page V R}
  {left : Option (Nat × V)}

/-- A change keeps pages exact, whatever the buffer holds, when the vector fits
the page that the buffer leads to. -/
theorem Change.exactPage (hcap : 2 ≤ capacity)
    (hfits : InsertFits dist capacity maxNum pages buffer newVector)
    (h : Change dist maxNum pages buffer newId newVector grown i p g left)
    (hp : (pages ++ List.replicate grown Page.zeroed)[i]? = some p)
    (hexact : ExactPage dist capacity p) : ExactPage dist capacity (g p) := by
  have hempty : (g p).slots = [] → (g p).maxDist = 0 := fun hnil => absurd hnil h.slots_ne_nil
  have hpos : 0 < capacity := Nat.zero_lt_of_lt hcap
  cases h with
  | first hBuffer =>
    rw [List.replicate_zero, List.append_nil] at hp
    exact hexact.append hpos (hfits.1 hBuffer p hp) newId
  | second hBuffer hOne =>
    refine ⟨?_, Page.exactRadius_renewMaxDist _, hempty⟩
    rw [Page.nVectors, Page.slots_renewMaxDist, Page.slots_append, List.length_append,
      List.length_singleton, ← Page.nVectors, hOne]
    exact hcap
  | inside hBuffer hMany hLt hRoom =>
    rw [List.replicate_zero, List.append_nil] at hp
    have htakes := (((hfits.2 _ hBuffer p hp).resolve_left hMany).resolve_left
      hLt.not_ge).resolve_left (Nat.not_lt.mpr hRoom)
    exact hexact.append hpos (Or.inr htakes) newId
  | evict hBuffer hMany hLt hFull hVictim =>
    refine ⟨?_, Page.exactRadius_renewMaxDist _, hempty⟩
    rw [Page.nVectors, Page.slots_renewMaxDist, Page.slots_placeAt, List.length_set]
    exact hexact.capacity
  | vacant hBuffer hNear hMany hGe hEmpty => exact hexact.append hpos (Or.inl hEmpty) newId
  | newFile => exact hexact.append hpos (Or.inl rfl) newId

/-- With a buffer filled for the new vector it fits. -/
theorem insertFits_filled (hmax : maxNum ≤ capacity) (pages : List (Page V R)) (newVector : V) :
    InsertFits dist capacity maxNum pages
      ((anchorDistances dist pages newVector).insertionSort (· ≤ ·)) newVector := by
  refine ⟨fun hnil p hp => Or.inl (anchorDistances_eq_nil hnil hp), fun best hbest p hp => ?_⟩
  obtain ⟨q, a, hq, ha, hd⟩ := head_anchorDistances hbest
  obtain rfl : p = q := Option.some.inj (Eq.trans (Eq.symm hp) hq)
  by_cases hroom : p.nVectors + 1 ≤ maxNum
  · by_cases hlt : best.first < p.maxDist
    · refine Or.inr (Or.inr (Or.inr ⟨hroom.trans hmax, fun b hb => ?_⟩))
      obtain rfl : a = b := Option.some.inj (ha.symm.trans hb)
      exact hd ▸ hlt.le
    · exact Or.inr (Or.inl (not_lt.mp hlt))
  · exact Or.inr (Or.inr (Or.inl (Nat.lt_of_not_le hroom)))

/-- All pages stay exact; and a victim is displaced only when no page may be filled
beyond its capacity. -/
theorem Change.exactPages (hcap : 2 ≤ capacity)
    (hfits : InsertFits dist capacity maxNum pages buffer newVector)
    (h : Change dist maxNum pages buffer newId newVector grown i p g left)
    (hp : (pages ++ List.replicate grown Page.zeroed)[i]? = some p)
    (hpages : ∀ q ∈ pages, ExactPage dist capacity q) :
    (∀ q ∈ (pages ++ List.replicate grown Page.zeroed).modify i g, ExactPage dist capacity q) ∧
      (left ≠ none → maxNum ≤ capacity) := by
  refine ⟨forall_modify hpages (exactPage_zeroed _) hp (h.exactPage hcap hfits hp), ?_⟩
  cases h with
  | evict hBuffer hMany hLt hFull hVictim =>
    intro _
    rw [List.replicate_zero, List.append_nil] at hp
    have hcount := (hpages p (List.mem_of_getElem? hp)).capacity
    omega
  | _ => exact fun hleft => absurd rfl hleft

end Fits

theorem AnchorsKept.change {pages₀ pages : List (Page V R)} (h : AnchorsKept pages₀ pages)
    {maxNum newId grown i : Nat} {newVector : V} {p : Page V R} {g : Page V R → Page V R}
    {left : Option (Nat × V)} {buffer : List (IdTaggedDistance R)}
    (hchange : Change dist maxNum pages buffer newId newVector grown i p g left)
    (hp : (pages ++ List.replicate grown Page.zeroed)[i]? = some p) :
    AnchorsKept pages₀ ((pages ++ List.replicate grown Page.zeroed).modify i g) := by
  intro j q hq hne
  obtain ⟨q', hq', hhead⟩ := h j q hq hne
  have hj : (pages ++ List.replicate grown Page.zeroed)[j]? = some q' := by
    rw [List.getElem?_append_left (List.getElem?_eq_some_iff.mp hq').1, hq']
  by_cases hij : i = j
  · subst hij
    obtain rfl : p = q' := Option.some.inj (hp.symm.trans hj)
    have hne' : p.slots ≠ [] := by
      intro hnil
      rw [hnil, List.head?_nil, eq_comm, List.head?_eq_none_iff] at hhead
      exact hne hhead
    exact ⟨g p, ListUpdate.getElem?_modify_self hp g, (hchange.head? hne').trans hhead⟩
  · exact ⟨q', by rw [ListUpdate.getElem?_modify_ne hij, hj], hhead⟩

theorem Core.Exact.ready {c : Core V R} (h : c.Exact dist)
    (hbuf : ∃ w, c.distToAnchorBuffer =
      (anchorDistances dist c.dbStorage.pages w).insertionSort (· ≤ ·)) : c.Ready dist where
  uniform := h.uniform
  nonempty := h.nonempty
  coherent := h.coherent
  attained p hp := (h.pages p hp).attained
  buffer := by
    obtain ⟨w, hw⟩ := hbuf
    rw [hw]
    exact anchorDistances_valid _ w

/-- An insertion that fits leaves all pages exact, whatever vector the buffer was
filled for. -/
theorem Core.Ready.insert_fits [Inhabited V] {c : Core V R} (h : c.Ready dist)
    (hpages : ∀ p ∈ c.dbStorage.pages, ExactPage dist c.dbStorage.maxNumVectorsPerPage p)
    (hCapacity : 2 ≤ c.dbStorage.maxNumVectorsPerPage) {density : ℚ} (newId : Nat) {newVector : V}
    (hfits : InsertFits dist c.dbStorage.maxNumVectorsPerPage
      (maxNumVectors c.dbStorage.maxNumVectorsPerPage density) c.dbStorage.pages
      c.distToAnchorBuffer newVector) :
    ∃ c' n, (∀ fuel, n ≤ fuel → insertAVector dist density fuel c newId newVector = some c') ∧
      c'.Ready dist ∧ c.dbStorage.SameShape c'.dbStorage ∧
      ∀ p ∈ c'.dbStorage.pages, ExactPage dist c.dbStorage.maxNumVectorsPerPage p := by
  obtain ⟨c', n, hrun, hready, hshape, hexact, -⟩ := h.insert_induction density newId newVector
    (fun pages left => (∀ p ∈ pages, ExactPage dist c.dbStorage.maxNumVectorsPerPage p) ∧
      (left ≠ none → maxNumVectors c.dbStorage.maxNumVectorsPerPage density ≤
        c.dbStorage.maxNumVectorsPerPage))
    (fun _ _ _ _ _ hchange hp => hchange.exactPages hCapacity hfits hp hpages)
    (fun pages w _ _ _ _ _ hI hchange hp => hchange.exactPages hCapacity
      (insertFits_filled (hI.2 (Option.some_ne_none w)) pages w.2) hp hI.1)
  exact ⟨c', n, hrun, hready, hshape, hexact⟩

/-- Two pages of capacity two; the first holds the points 0 and 10 and the
buffer is filled for the point 3, which displaces 10. -/
def fullPageCore : Core (Distance.Vec ℚ 1) ℚ where
  dbStorage := { (Storage.createStorage 40 80 .float 1 : Storage (Distance.Vec ℚ 1) ℚ) with
    files := [⟨80, 40, [⟨100, [(0, .point 0), (1, .point 10)]⟩, .zeroed]⟩] }
  cachedVectors := [.point 0, .point 0]
  cachedMaxDists := [⟨100, 0⟩]
  distToAnchorBuffer := [⟨9, 0⟩]

end Spheres.Execution
