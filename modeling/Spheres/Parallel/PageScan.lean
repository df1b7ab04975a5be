import Spheres.Parallel.LocalHeap
import Spheres.Parallel.Probe

/-!
# Scanning one page for nearest neighbours

The part that `find_knn_worker` and `find_knn_batch_worker` share: decide
whether the heap top rules the page out, otherwise offer its anchor with the
distance already known and then every other slot.
-/

namespace Spheres.Parallel

open Library.Selection

variable {V R : Type*}

/-- What both search tasks read from the context. -/
structure Search (V R : Type*) where
  dbStorage : Storage V R
  distFunc : V → V → R
  pruneCheckFunc : R → R → WithTop R → Bool
  k : Nat

namespace Search

variable [LinearOrder R] (S : Search V R)

/-- The test against the heap top, made when the heap is full. -/
def prunedByTop (distToAnchor max : R) (h : LocalHeap R) : Option Bool :=
  if h.nOutputs < S.k then some false
  else h.top.map fun top => S.pruneCheckFunc distToAnchor max top.first

/-- One step of the loop over the slots of a page. -/
def offer (e : IdTaggedDistance R) (h : LocalHeap R) : Option (LocalHeap R) :=
  if h.nOutputs = S.k then h.offerFull S.k e else h.push e

/-- The anchor of a page that is not pruned, then the loop over its other slots. -/
def visitPage (query : V) (distToAnchor : R) (pageIdx : Nat) (h : LocalHeap R) :
    Option (LocalHeap R) :=
  let view := S.dbStorage.getArrayViewOfPage pageIdx
  view.head?.bind fun slot =>
  (if h.nOutputs < S.k then h.push ⟨distToAnchor, slot.1⟩
    else h.offerFull S.k ⟨distToAnchor, slot.1⟩).bind fun h =>
  (view.drop 1).foldlM (fun h slot => S.offer ⟨S.distFunc slot.2 query, slot.1⟩ h) h

variable {κ : Type*} [LinearOrder κ]

/-- A key that ranks entries by their distances, ids apart. -/
def ByDistance (key : IdTaggedDistance R → κ) : Prop :=
  ∀ z e, z.first ≤ e.first → key z ≤ key e

variable {S} {bufferSize : Nat} {pruned : IdTaggedDistance R → Prop}
  {key : IdTaggedDistance R → κ}

theorem byDistance_first : ByDistance (IdTaggedDistance.first : IdTaggedDistance R → R) :=
  fun _ _ h => h

theorem ByDistance.monotone (hkey : ByDistance key) : Monotone key :=
  fun _ _ h => hkey _ _ (IdTaggedDistance.first_le_of_le h)

/-- An entry offered in the loop over the slots. -/
theorem offer_covers (hkey : ByDistance key) (hk : 0 < S.k) {h : LocalHeap R} (hv : h.Valid S.k bufferSize)
    (e : IdTaggedDistance R) {all : Multiset (IdTaggedDistance R)}
    (hcov : CoversExcept key pruned S.k h.live all) :
    ∃ h', S.offer e h = some h' ∧ h'.Valid S.k bufferSize ∧
      CoversExcept key pruned S.k h'.live (e ::ₘ all) := by
  by_cases hfull : h.nOutputs = S.k
  · obtain ⟨h', hrun, hv', -, hcov'⟩ :=
      hv.offerFull_covers hk hfull hkey.monotone e (fun z _ => hkey z e) hcov
    exact ⟨h', by rw [offer, if_pos hfull, hrun], hv', hcov'⟩
  · obtain ⟨h', hrun, hv', -, hcov'⟩ := hv.push_covers (by have := hv.le; omega) e hcov
    exact ⟨h', by rw [offer, if_neg hfull, hrun], hv', hcov'⟩

theorem offerAll_covers (hkey : ByDistance key) (hk : 0 < S.k) (query : V)
    (slots : List (Nat × V)) {h : LocalHeap R} (hv : h.Valid S.k bufferSize) {all : Multiset (IdTaggedDistance R)}
    (hcov : CoversExcept key pruned S.k h.live all) :
    ∃ h', slots.foldlM (fun h slot => S.offer ⟨S.distFunc slot.2 query, slot.1⟩ h) h = some h' ∧
      h'.Valid S.k bufferSize ∧
      CoversExcept key pruned S.k h'.live
        (((slots.map fun s => (⟨S.distFunc s.2 query, s.1⟩ : IdTaggedDistance R)) :
          Multiset (IdTaggedDistance R)) + all) := by
  induction slots generalizing h all with
  | nil => exact ⟨h, rfl, hv, by simpa using hcov⟩
  | cons slot slots ih =>
    obtain ⟨h₁, hrun₁, hv₁, hcov₁⟩ := offer_covers hkey hk hv ⟨S.distFunc slot.2 query, slot.1⟩ hcov
    obtain ⟨h₂, hrun₂, hv₂, hcov₂⟩ := ih hv₁ hcov₁
    refine ⟨h₂, by rw [List.foldlM_cons, hrun₁]; exact hrun₂, hv₂, ?_⟩
    rw [List.map_cons, ← Multiset.cons_coe, Multiset.cons_add, ← Multiset.add_cons]
    exact hcov₂

/-- A page that is scanned contributes all its slots. -/
theorem visitPage_covers (hkey : ByDistance key) (hk : 0 < S.k)
    (hsymm : ∀ v w, S.distFunc v w = S.distFunc w v)
    (huniform : S.dbStorage.Uniform) {pageIdx : Nat} {p : Page V R}
    (hp : S.dbStorage.pages[pageIdx]? = some p) {query a : V} (ha : p.anchor = some a)
    {h : LocalHeap R} (hv : h.Valid S.k bufferSize) {all : Multiset (IdTaggedDistance R)}
    (hcov : CoversExcept key pruned S.k h.live all) :
    ∃ h', S.visitPage query (S.distFunc query a) pageIdx h = some h' ∧
      h'.Valid S.k bufferSize ∧
      CoversExcept key pruned S.k h'.live
        ((entries S.distFunc query p : Multiset (IdTaggedDistance R)) + all) := by
  obtain ⟨slot, hslot, rfl⟩ := Option.map_eq_some_iff.mp ha
  obtain ⟨rest, hslots⟩ := List.head?_eq_some_iff.mp hslot
  have hview := huniform.getArrayViewOfPage_eq hp
  have hanchor : ∃ h₁, (if h.nOutputs < S.k then h.push ⟨S.distFunc query slot.2, slot.1⟩
      else h.offerFull S.k ⟨S.distFunc query slot.2, slot.1⟩) = some h₁ ∧
      h₁.Valid S.k bufferSize ∧
      CoversExcept key pruned S.k h₁.live
        (⟨S.distFunc query slot.2, slot.1⟩ ::ₘ all) := by
    by_cases hlt : h.nOutputs < S.k
    · obtain ⟨h₁, hrun, hv₁, -, hcov₁⟩ :=
        hv.push_covers hlt ⟨S.distFunc query slot.2, slot.1⟩ hcov
      exact ⟨h₁, by rw [if_pos hlt, hrun], hv₁, hcov₁⟩
    · obtain ⟨h₁, hrun, hv₁, -, hcov₁⟩ := hv.offerFull_covers hk (by have := hv.le; omega)
        hkey.monotone ⟨S.distFunc query slot.2, slot.1⟩ (fun z _ => hkey z _) hcov
      exact ⟨h₁, by rw [if_neg hlt, hrun], hv₁, hcov₁⟩
  obtain ⟨h₁, hrun₁, hv₁, hcov₁⟩ := hanchor
  obtain ⟨h₂, hrun₂, hv₂, hcov₂⟩ := offerAll_covers hkey hk query rest hv₁ hcov₁
  refine ⟨h₂, ?_, hv₂, ?_⟩
  · simp only [visitPage, hview, hslots, List.head?_cons, Option.bind_some, hrun₁, List.drop_one,
      List.tail_cons]
    exact hrun₂
  · rw [entries, hslots, List.map_cons, ← Multiset.cons_coe, Multiset.cons_add,
      ← Multiset.add_cons, hsymm slot.2 query]
    exact hcov₂

/-- The test against the heap top, when it passes: the heap is full, and an
entry of the page is either excused or not ranked below what lies within the top. -/
theorem skip_covers {d max : R} {h : LocalHeap R} (hk : 0 < S.k) (hv : h.Valid S.k bufferSize)
    (htest : S.prunedByTop d max h = some true) (ys : Multiset (IdTaggedDistance R))
    (hprune : ∀ w : R, S.pruneCheckFunc d max w = true → ∀ y ∈ ys,
      (∀ z : IdTaggedDistance R, z.first ≤ w → key z ≤ key y) ∨ pruned y)
    {all : Multiset (IdTaggedDistance R)}
    (hcov : CoversExcept key pruned S.k h.live all) :
    CoversExcept key pruned S.k h.live (ys + all) := by
  by_cases hlt : h.nOutputs < S.k
  · rw [prunedByTop, if_pos hlt] at htest
    cases htest
  · have hfull : h.nOutputs = S.k := by
      have := hv.le
      omega
    obtain ⟨top, rest, htop, -, hmax⟩ := hv.top_live (hfull ▸ hk)
    rw [prunedByTop, if_neg hlt, htop, Option.map_some] at htest
    refine hcov.skip ys fun y hy => ?_
    refine (hprune top.first (Option.some.inj htest) y hy).imp_left fun hrank => ?_
    rw [Multiset.countP_eq_card.mpr, hv.card_live, hfull]
    intro z hz
    exact hrank z (IdTaggedDistance.first_le_of_le (hmax z (Multiset.mem_coe.mp hz)))

theorem prunedByTop_isSome {d max : R} {h : LocalHeap R} (hk : 0 < S.k)
    (hv : h.Valid S.k bufferSize) : ∃ b, S.prunedByTop d max h = some b := by
  by_cases hlt : h.nOutputs < S.k
  · exact ⟨false, by rw [prunedByTop, if_pos hlt]⟩
  · obtain ⟨top, htop⟩ := hv.exists_top hk
    exact ⟨_, by rw [prunedByTop, if_neg hlt, htop, Option.map_some]⟩

end Search

end Spheres.Parallel
