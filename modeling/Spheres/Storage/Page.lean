import Mathlib.Algebra.Order.Ring.Defs
import Mathlib.Order.Bounds.Basic
import Spheres.Definitions

/-!
# Pages

A page stores its occupied slots, each an id with a vector, and the radius
`max_dist` of the page as last written. The vector in slot 0 is the anchor of
the page. The stored count `n_vectors` is the number of occupied slots.

The page keeps a slot written past its capacity at the end of the list, so that
the count stays right and an overfull page can be seen; which other bytes such
a write would damage is not modelled.
-/

namespace Spheres

structure Page (V R : Type*) where
  maxDist : R
  slots : List (Nat × V)
  deriving DecidableEq

namespace Page

variable {V R : Type*}

/-- A page of a new file: the file starts with zero bytes. -/
def zeroed [Zero R] : Page V R := ⟨0, []⟩

def nVectors (p : Page V R) : Nat := p.slots.length

/-- `append_new_vector` on one page. -/
def append (newId : Nat) (newVector : V) (p : Page V R) : Page V R :=
  { p with slots := p.slots ++ [(newId, newVector)] }

/-- `place_new_vector_at` on one page, at an occupied slot. -/
def placeAt (newId : Nat) (newVector : V) (vectorIndex : Nat) (p : Page V R) : Page V R :=
  { p with slots := p.slots.set vectorIndex (newId, newVector) }

/-- `update_in_page_max_dist` on one page. -/
def setMaxDist (d : R) (p : Page V R) : Page V R := { p with maxDist := d }

/-- The vector in slot 0. -/
def anchor (p : Page V R) : Option V := p.slots.head?.map Prod.snd

/-- `find_victim_single_threaded`: the first slot after the anchor at exactly
the stored radius, or `n_vectors` when there is none. -/
def findVictimSingleThreaded [DecidableEq R] (dist : V → V → R) (p : Page V R) : Nat :=
  match p.slots with
  | [] => 0
  | a :: rest => rest.findIdx (fun s => decide (p.maxDist = dist s.2 a.2)) + 1

/-- `calculate_new_max_dist`: the largest distance from the anchor to a later
slot, starting from `T{}`. -/
def calculateNewMaxDist [Zero R] [LT R] [DecidableLT R] (dist : V → V → R) (p : Page V R) : R :=
  match p.slots with
  | [] => 0
  | a :: rest => rest.foldl (fun m s => if m < dist s.2 a.2 then dist s.2 a.2 else m) 0

/-- `calculate_new_max_dist`, then `update_in_page_max_dist`. -/
def renewMaxDist [Zero R] [LT R] [DecidableLT R] (dist : V → V → R) (p : Page V R) : Page V R :=
  p.setMaxDist (p.calculateNewMaxDist dist)

@[simp] theorem slots_append (newId : Nat) (newVector : V) (p : Page V R) :
    (p.append newId newVector).slots = p.slots ++ [(newId, newVector)] := rfl

@[simp] theorem maxDist_append (newId : Nat) (newVector : V) (p : Page V R) :
    (p.append newId newVector).maxDist = p.maxDist := rfl

@[simp] theorem slots_placeAt (newId : Nat) (newVector : V) (i : Nat) (p : Page V R) :
    (p.placeAt newId newVector i).slots = p.slots.set i (newId, newVector) := rfl

/-- The slots that are there already. -/
theorem getElem?_slots_append_of_ne {p : Page V R} {i : Nat} (h : i ≠ p.nVectors) (newId : Nat)
    (newVector : V) : (p.append newId newVector).slots[i]? = p.slots[i]? := by
  rw [slots_append]
  rcases Nat.lt_or_gt_of_ne h with hlt | hgt
  · exact List.getElem?_append_left hlt
  · have hold : p.slots.length < i := hgt
    have hnew : (p.slots ++ [(newId, newVector)]).length ≤ i := by
      rwa [List.length_append, List.length_singleton]
    rw [List.getElem?_eq_none hnew, List.getElem?_eq_none hold.le]

@[simp] theorem slots_renewMaxDist [Zero R] [LT R] [DecidableLT R] (dist : V → V → R)
    (p : Page V R) : (p.renewMaxDist dist).slots = p.slots := rfl

theorem head?_append {p : Page V R} (h : p.slots ≠ []) (newId : Nat) (newVector : V) :
    (p.append newId newVector).slots.head? = p.slots.head? := by
  obtain ⟨a, rest, hs⟩ := List.exists_cons_of_ne_nil h
  simp [hs]

theorem head?_placeAt {i : Nat} (h : 0 < i) (newId : Nat) (newVector : V) (p : Page V R) :
    (p.placeAt newId newVector i).slots.head? = p.slots.head? := by
  obtain ⟨j, rfl⟩ := Nat.exists_eq_succ_of_ne_zero (Nat.pos_iff_ne_zero.mp h)
  cases hs : p.slots with
  | nil => simp [hs]
  | cons a rest => simp [hs]

theorem anchor_append {p : Page V R} (h : p.slots ≠ []) (newId : Nat) (newVector : V) :
    (p.append newId newVector).anchor = p.anchor :=
  congrArg (Option.map Prod.snd) (head?_append h newId newVector)

theorem anchor_placeAt {i : Nat} (h : 0 < i) (newId : Nat) (newVector : V) (p : Page V R) :
    (p.placeAt newId newVector i).anchor = p.anchor :=
  congrArg (Option.map Prod.snd) (head?_placeAt h newId newVector p)

@[simp] theorem anchor_renewMaxDist [Zero R] [LT R] [DecidableLT R] (dist : V → V → R)
    (p : Page V R) : (p.renewMaxDist dist).anchor = p.anchor := rfl

/-! ## The radius of a page -/

section Radius

variable [Zero R] [LinearOrder R] (dist : DistFunc V R)

/-- The distances from the slots of a page to its anchor. -/
def radii (p : Page V R) : Set R :=
  {d | ∃ a, p.anchor = some a ∧ ∃ s ∈ p.slots, d = dist s.2 a}

/-- The stored `max_dist` of a non-empty page is the largest distance from its
slots to its anchor. -/
def ExactRadius (p : Page V R) : Prop :=
  p.slots ≠ [] → IsGreatest (p.radii dist) p.maxDist

/-- The stored `max_dist` bounds the distance of every occupied slot to the
anchor: what pruning relies on. -/
def Bounded (p : Page V R) : Prop := ∀ d ∈ p.radii dist, d ≤ p.maxDist

/-- The stored `max_dist` is zero or the distance of some slot to the anchor. -/
def Attained (p : Page V R) : Prop := p.maxDist = 0 ∨ p.maxDist ∈ p.radii dist

variable {dist}

theorem mem_radii_cons {p : Page V R} {a : Nat × V} {rest : List (Nat × V)}
    (h : p.slots = a :: rest) {d : R} :
    d ∈ p.radii dist ↔ ∃ s ∈ a :: rest, d = dist s.2 a.2 := by
  simp [radii, anchor, h]

theorem radii_nil {p : Page V R} (h : p.slots = []) : p.radii dist = ∅ := by
  ext d
  simp [radii, anchor, h]

theorem bounded_iff {p : Page V R} :
    p.Bounded dist ↔ ∀ a ∈ p.anchor, ∀ s ∈ p.slots, dist s.2 a ≤ p.maxDist := by
  constructor
  · intro h a ha s hs
    exact h _ ⟨a, ha, s, hs, rfl⟩
  · rintro h d ⟨a, ha, s, hs, rfl⟩
    exact h a ha s hs

instance (p : Page V R) : Decidable (p.Bounded dist) := decidable_of_iff _ bounded_iff.symm

theorem ExactRadius.bounded {p : Page V R} (h : p.ExactRadius dist) : p.Bounded dist := by
  intro d hd
  have hne : p.slots ≠ [] := by
    rintro he
    rw [radii_nil he] at hd
    exact hd
  exact (h hne).2 hd

theorem ExactRadius.nonneg {p : Page V R} (h : p.ExactRadius dist) (hne : p.slots ≠ []) :
    0 ≤ p.maxDist := by
  obtain ⟨a, -, s, -, hd⟩ := (h hne).1
  rw [hd]
  exact dist.nonneg _ _

omit [Zero R] in
theorem foldl_max_spec (f : Nat × V → R) (rest : List (Nat × V)) (m : R) :
    m ≤ rest.foldl (fun m s => if m < f s then f s else m) m ∧
      (∀ s ∈ rest, f s ≤ rest.foldl (fun m s => if m < f s then f s else m) m) ∧
      (rest.foldl (fun m s => if m < f s then f s else m) m = m ∨
        ∃ s ∈ rest, rest.foldl (fun m s => if m < f s then f s else m) m = f s) := by
  induction rest generalizing m with
  | nil => simp
  | cons s rest ih =>
    obtain ⟨hle, hall, hmem⟩ := ih (if m < f s then f s else m)
    have hm : m ≤ if m < f s then f s else m := by
      split
      · exact le_of_lt ‹_›
      · exact le_rfl
    have hs : f s ≤ if m < f s then f s else m := by
      split
      · exact le_rfl
      · exact not_lt.mp ‹_›
    refine ⟨hm.trans hle, ?_, ?_⟩
    · intro t ht
      rcases List.mem_cons.mp ht with rfl | ht
      · exact hs.trans hle
      · exact hall t ht
    · rw [List.foldl_cons]
      rcases hmem with heq | ⟨t, ht, heq⟩
      · rw [heq]
        split
        · exact Or.inr ⟨s, List.mem_cons_self, rfl⟩
        · exact Or.inl rfl
      · exact Or.inr ⟨t, List.mem_cons_of_mem _ ht, heq⟩

/-- The recomputed radius is exact. -/
theorem calculateNewMaxDist_isGreatest {p : Page V R} (hne : p.slots ≠ []) :
    IsGreatest (p.radii dist) (p.calculateNewMaxDist dist) := by
  obtain ⟨a, rest, h⟩ := List.exists_cons_of_ne_nil hne
  obtain ⟨h0, hall, hmem⟩ := foldl_max_spec (fun s => dist s.2 a.2) rest 0
  have hcalc : p.calculateNewMaxDist dist =
      rest.foldl (fun m s => if m < dist s.2 a.2 then dist s.2 a.2 else m) 0 := by
    simp [calculateNewMaxDist, h]
  rw [hcalc]
  constructor
  · rw [mem_radii_cons h]
    rcases hmem with heq | ⟨s, hs, heq⟩
    · exact ⟨a, List.mem_cons_self, by rw [heq, dist.self_eq]⟩
    · exact ⟨s, List.mem_cons_of_mem _ hs, heq⟩
  · intro d hd
    obtain ⟨s, hs, rfl⟩ := (mem_radii_cons h).mp hd
    rcases List.mem_cons.mp hs with rfl | hs
    · rw [dist.self_eq]
      exact h0
    · exact hall s hs

theorem exactRadius_renewMaxDist (p : Page V R) : (p.renewMaxDist dist).ExactRadius dist :=
  fun hne => calculateNewMaxDist_isGreatest hne

/-- A single slot has radius zero. -/
theorem exactRadius_singleton {p : Page V R} (h : p.slots = []) (h0 : p.maxDist = 0)
    (newId : Nat) (newVector : V) : (p.append newId newVector).ExactRadius dist := by
  intro _
  have hs : (p.append newId newVector).slots = (newId, newVector) :: [] := by simp [h]
  rw [maxDist_append, h0]
  constructor
  · exact (mem_radii_cons hs).mpr ⟨_, List.mem_cons_self, (dist.self_eq _).symm⟩
  · intro d hd
    obtain ⟨s, hs', rfl⟩ := (mem_radii_cons hs).mp hd
    obtain rfl := List.mem_singleton.mp hs'
    exact (dist.self_eq _).le

/-- A vector within the radius leaves it as it is. -/
theorem ExactRadius.append {p : Page V R} (h : p.ExactRadius dist) {a : V}
    (ha : p.anchor = some a) {newVector : V} (hle : dist newVector a ≤ p.maxDist)
    (newId : Nat) : (p.append newId newVector).ExactRadius dist := by
  intro _
  have hne : p.slots ≠ [] := by
    intro hnil
    simp [anchor, hnil] at ha
  have ha' : (p.append newId newVector).anchor = some a := (anchor_append hne _ _).trans ha
  obtain ⟨⟨b, hb, s, hs, hd⟩, hbound⟩ := h hne
  obtain rfl : a = b := Option.some.inj (ha.symm.trans hb)
  rw [maxDist_append]
  constructor
  · exact ⟨a, ha', s, by simp [hs], hd⟩
  · rintro d ⟨b, hb', t, ht, rfl⟩
    obtain rfl : a = b := Option.some.inj (ha'.symm.trans hb')
    rw [slots_append, List.mem_append, List.mem_singleton] at ht
    rcases ht with ht | rfl
    · exact hbound ⟨a, ha, t, ht, rfl⟩
    · exact hle

theorem exactRadius_iff {p : Page V R} :
    p.ExactRadius dist ↔ (p.slots ≠ [] → p.maxDist = p.calculateNewMaxDist dist) := by
  constructor
  · intro h hne
    exact (h hne).unique (calculateNewMaxDist_isGreatest hne)
  · intro h hne
    rw [h hne]
    exact calculateNewMaxDist_isGreatest hne

instance [DecidableEq V] (p : Page V R) : Decidable (p.ExactRadius dist) :=
  decidable_of_iff _ exactRadius_iff.symm

/-- A radius is attained by the anchor alone only if it is zero; a positive
exact radius is found by the search for a victim. -/
theorem findVictim_spec {p : Page V R} (hpos : 0 < p.maxDist)
    (hmem : p.maxDist ∈ p.radii dist) :
    ∃ s, p.slots[p.findVictimSingleThreaded dist]? = some s ∧
      0 < p.findVictimSingleThreaded dist ∧
      ∀ a, p.anchor = some a → dist s.2 a = p.maxDist := by
  obtain ⟨a, ha, s, hs, hd⟩ := hmem
  cases h : p.slots with
  | nil => simp [anchor, h] at ha
  | cons b rest =>
    obtain rfl : b.2 = a := by simpa [anchor, h] using ha
    have hs' : s ∈ rest := by
      rw [h] at hs
      rcases List.mem_cons.mp hs with rfl | hs
      · rw [hd, dist.self_eq] at hpos
        exact absurd hpos (lt_irrefl _)
      · exact hs
    let found : Nat × V → Bool := fun t => decide (p.maxDist = dist t.2 b.2)
    have hlt : rest.findIdx found < rest.length :=
      List.findIdx_lt_length_of_exists ⟨s, hs', decide_eq_true hd⟩
    have hvictim : p.findVictimSingleThreaded dist = rest.findIdx found + 1 := by
      simp [findVictimSingleThreaded, h, found]
    refine ⟨rest[rest.findIdx found], ?_, ?_, ?_⟩
    · rw [hvictim, List.getElem?_cons_succ, List.getElem?_eq_getElem hlt]
    · rw [hvictim]
      exact Nat.succ_pos _
    · intro a' ha'
      obtain rfl : b.2 = a' := by simpa [anchor, h] using ha'
      exact (of_decide_eq_true (List.findIdx_getElem (w := hlt))).symm

end Radius

end Page

end Spheres
