import Spheres.Distance.UnitVectors
import Spheres.Interface.IdealStore

/-!
# Three distance functions, one search

The constructor of a database installs one of three distance functions with the
test that belongs to it. On unit vectors they order the vectors in the same
way, and every test is sound for its function. So a database of unit vectors
behaves as the ideal store of the squared distance, whichever function it was
created with, once the distances that it replies are squared where the function
takes the square root.
-/

namespace Spheres

open Execution Parallel Library Library.Selection Distance

variable {V R : Type*}

/-! ## Replies in other units -/

def IdTaggedDistance.rescale (g : R → R) (e : IdTaggedDistance R) : IdTaggedDistance R :=
  ⟨g e.first, e.second⟩

/-- The reply with its distances rescaled. -/
def Reply.rescale (g : R → R) : Reply V R → Reply V R
  | .done => .done
  | .found result => .found (result.map (Option.map (IdTaggedDistance.rescale g)))
  | .left newVectors ids => .left newVectors ids

namespace IdealStore

variable [LinearOrder R] {dist dist' : V → V → R} {g : R → R}

/-- `g` turns one distance into the other and keeps the order. -/
structure Converts (g : R → R) (dist dist' : V → V → R) : Prop where
  eq : ∀ v w, g (dist v w) = dist' v w
  lt : ∀ v w v' w', dist v w < dist v' w' → dist' v w < dist' v' w'

theorem Converts.le (h : Converts g dist dist') {v w v' w' : V} (hle : dist v w ≤ dist v' w') :
    dist' v w ≤ dist' v' w' := by
  rcases hle.lt_or_eq with hlt | heq
  · exact (h.lt _ _ _ _ hlt).le
  · rw [← h.eq, ← h.eq, heq]

theorem Nearest.mem {seen : IdealStore V} {query : V} {k : Nat} {found : List (IdTaggedDistance R)}
    (h : Nearest dist seen query k found) {e : IdTaggedDistance R} (he : e ∈ found) :
    ∃ v, e.first = dist v query := by
  obtain ⟨s, -, rfl⟩ := Multiset.mem_map.mp (Multiset.mem_of_le h.2.le (Multiset.mem_coe.mpr he))
  exact ⟨s.2, rfl⟩

theorem Nearest.rescale (hg : Converts g dist dist') {seen : IdealStore V} {query : V} {k : Nat}
    {found : List (IdTaggedDistance R)} (h : Nearest dist seen query k found) :
    Nearest dist' seen query k (found.map (IdTaggedDistance.rescale g)) := by
  have hsmallest := h.2.map IdTaggedDistance.first (IdTaggedDistance.rescale g) (by
    intro x hx y hy hle
    obtain ⟨s, -, rfl⟩ := Multiset.mem_map.mp hx
    obtain ⟨t, -, rfl⟩ := Multiset.mem_map.mp hy
    show g (dist s.2 query) ≤ g (dist t.2 query)
    rw [hg.eq, hg.eq]
    exact hg.le hle)
  rw [Multiset.map_map, Multiset.map_coe] at hsmallest
  refine ⟨(List.length_map _).trans h.1, ?_⟩
  simpa only [Function.comp_def, IdTaggedDistance.rescale, hg.eq] using hsmallest

/-- Sorted pairs stay sorted. -/
theorem Nearest.pairwise_rescale (hg : Converts g dist dist') {seen : IdealStore V} {query : V}
    {k : Nat} {found : List (IdTaggedDistance R)} (h : Nearest dist seen query k found)
    (hsorted : found.Pairwise (· ≤ ·)) :
    (found.map (IdTaggedDistance.rescale g)).Pairwise (· ≤ ·) := by
  rw [List.pairwise_map]
  refine hsorted.imp_of_mem fun {a b} ha hb hle => ?_
  obtain ⟨v, hv⟩ := h.mem ha
  obtain ⟨w, hw⟩ := h.mem hb
  rw [IdTaggedDistance.le_iff] at hle ⊢
  show g a.first < g b.first ∨ g a.first = g b.first ∧ a.second ≤ b.second
  rcases hle with hlt | ⟨heq, hid⟩
  · rw [hv, hw] at hlt ⊢
    rw [hg.eq, hg.eq]
    exact Or.inl (hg.lt _ _ _ _ hlt)
  · exact Or.inr ⟨congrArg g heq, hid⟩

theorem Step.rescale (hg : Converts g dist dist') {store store' : IdealStore V}
    {e : Call V × Reply V R} (h : Step dist store e store') :
    Step dist' store (e.1, e.2.rescale g) store' := by
  have hfound : ∀ found : List (IdTaggedDistance R),
      (Reply.found (found.map some)).rescale g =
        (.found ((found.map (IdTaggedDistance.rescale g)).map some) : Reply V R) := by
    intro found
    rw [Reply.rescale, List.map_map, List.map_map]
    rfl
  cases h with
  | insertAVector => exact .insertAVector ..
  | nearest hsees hnearest hsorted =>
    rw [hfound]
    exact .nearest hsees (hnearest.rescale hg) (hnearest.pairwise_rescale hg hsorted)
  | batch hlength hrows =>
    rw [hfound]
    refine .batch ((List.length_map _).trans hlength) fun i query hquery => ?_
    obtain ⟨seen, hsees, hnearest⟩ := hrows i query hquery
    refine ⟨seen, hsees, ?_⟩
    have hrow := hnearest.rescale hg
    rw [Rows.row, List.map_take, List.map_drop] at hrow
    exact hrow
  | batchPrefill => exact .batchPrefill ..
  | batchPrefillParallel => exact .batchPrefillParallel ..
  | reopen => exact .reopen ..

end IdealStore

/-! ## Databases of unit vectors -/

section Units

variable [Field R] [LinearOrder R] [IsStrictOrderedRing R] {sqrt : R → R} {dim : Nat}

/-- What the constructor of a database installs for each supported function. -/
def installedFor (sqrt : R → R) (dim : Nat) (f : SupportedDistanceFunctions) :
    Installed (UnitVec R dim) R where
  distFunc v w := distFunc sqrt f v.1.toList w.1.toList
  pruneCheckFunc := pruneCheckFunc f

/-- The squared distance of unit vectors. -/
def squaredUnitDistance (v w : UnitVec R dim) : R := squaredL2Distance v.1.toList w.1.toList

theorem converts_squaredUnits (hsqrt : ExactOnUnits sqrt dim) (f : SupportedDistanceFunctions) :
    IdealStore.Converts (squaredUnits f) (unitDistance hsqrt f) squaredUnitDistance where
  eq := squaredUnits_distFunc hsqrt f
  lt v w v' w' hlt := by
    have hnonneg := (unitDistance hsqrt f).nonneg
    have hsquared := (squaredUnits_lt f (hnonneg v w) (hnonneg v' w')).mpr hlt
    rw [show squaredUnits f (unitDistance hsqrt f v w) = _ from squaredUnits_distFunc hsqrt f v w,
      show squaredUnits f (unitDistance hsqrt f v' w') = _ from
        squaredUnits_distFunc hsqrt f v' w'] at hsquared
    exact hsquared

end Units

/-! ## The two unit vectors of a line -/

theorem exactOnUnits_line : ExactOnUnits Rat.sqrt 1 := by
  have hunit : ∀ v : UnitVec ℚ 1, v.1 = .point 1 ∨ v.1 = .point (-1) := by
    rintro ⟨⟨l, hl⟩, hv⟩
    obtain ⟨x, rfl⟩ := List.length_eq_one_iff.mp hl
    have hx : x * x = 1 := by simpa [Normalized, dotProductNaive_eq] using hv
    rcases mul_self_eq_one_iff.mp hx with rfl | rfl
    · exact Or.inl rfl
    · exact Or.inr rfl
  intro v w
  rcases hunit v with hv | hv <;> rcases hunit w with hw | hw <;> rw [hv, hw] <;>
    exact ⟨by decide +kernel, by decide +kernel⟩

def rightUnit : UnitVec ℚ 1 := ⟨.point 1, by decide +kernel⟩

def leftUnit : UnitVec ℚ 1 := ⟨.point (-1), by decide +kernel⟩

instance : Inhabited (UnitVec ℚ 1) := ⟨rightUnit⟩

/-- A database with the linear distance. -/
def linear : Database (UnitVec ℚ 1) ℚ :=
  (Database.create (installedFor Rat.sqrt 1) 52 156 .float 1 .normalizedL2Distance 1 4).get
    (by decide +kernel)

def loadBothUnits : Option (Database (UnitVec ℚ 1) ℚ × List (UnitVec ℚ 1) × List Nat) :=
  linear.batchPrefill [rightUnit, leftUnit] [0, 1] 1

theorem loadBothUnits_isSome : loadBothUnits.isSome := by decide +kernel

def linearFilled : Database (UnitVec ℚ 1) ℚ := (loadBothUnits.get loadBothUnits_isSome).1

def bothUnits : Request (UnitVec ℚ 1) :=
  .nearest rightUnit 2 0 1 [] ((roundRobin 1 17).map fun t => (t.1.val, t.2))

end Spheres
