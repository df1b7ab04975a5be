import Mathlib.Algebra.BigOperators.Group.Finset.Piecewise
import Mathlib.Algebra.Order.BigOperators.Group.Finset
import Mathlib.Algebra.Order.Group.Defs
import Mathlib.Data.Fintype.EquivFin

/-!
# Exchanging members of a set for cheaper ones

Two sets of the same size differ in members that can be paired. If each member of
`T` costs at most as much as each member of `S` outside `T`, the cost of `T` is at most
that of `S`, and it is the same only if the members have the same costs.
-/

namespace Spheres.Library

variable {ι K : Type*} [DecidableEq ι] {S T : Finset ι}

/-- A pairing of the members in which two sets of one size differ, and sums over the
sets in terms of it. -/
theorem exists_pairing (hcard : S.card = T.card) :
    ∃ e : (T \ S : Finset ι) → ι, (∀ t, e t ∈ S ∧ e t ∉ T) ∧
      ∀ {M : Type*} [AddCommMonoid M] (f : ι → M),
        ∑ s ∈ S, f s = ∑ t : (T \ S : Finset ι), f (e t) + ∑ s ∈ S ∩ T, f s ∧
          ∑ t ∈ T, f t = ∑ t : (T \ S : Finset ι), f t + ∑ s ∈ S ∩ T, f s := by
  have hdiff : (T \ S).card = (S \ T).card := by
    have hT := Finset.card_sdiff_add_card_inter T S
    have hS := Finset.card_sdiff_add_card_inter S T
    rw [Finset.inter_comm] at hS
    omega
  let e := Finset.equivOfCardEq hdiff
  refine ⟨fun t => e t, fun t => Finset.mem_sdiff.mp (e t).2, fun {M} _ f => ⟨?_, ?_⟩⟩
  · have hsplit : ∑ s ∈ S \ T, f s + ∑ s ∈ S ∩ T, f s = ∑ s ∈ S, f s := by
      rw [add_comm]
      exact Finset.sum_inter_add_sum_sdiff S T f
    rw [← hsplit, ← Finset.sum_coe_sort (S \ T), ← e.sum_comp]
  · have hsplit : ∑ t ∈ T \ S, f t + ∑ s ∈ S ∩ T, f s = ∑ t ∈ T, f t := by
      rw [add_comm, Finset.inter_comm]
      exact Finset.sum_inter_add_sum_sdiff T S f
    rw [← hsplit, ← Finset.sum_coe_sort (T \ S)]

variable [AddCommGroup K] [LinearOrder K] [IsOrderedAddMonoid K] {cost : ι → K}

theorem sum_le_of_cheaper (hcard : S.card = T.card)
    (h : ∀ t ∈ T, ∀ s ∈ S, s ∉ T → cost t ≤ cost s) : ∑ t ∈ T, cost t ≤ ∑ s ∈ S, cost s := by
  obtain ⟨e, he, hsums⟩ := exists_pairing hcard
  rw [(hsums cost).1, (hsums cost).2]
  refine add_le_add_left (Finset.sum_le_sum fun t _ => ?_) _
  exact h t (Finset.mem_sdiff.mp t.2).1 (e t) (he t).1 (he t).2

/-- Equal costs come from equal members' costs. -/
theorem sum_eq_iff_of_cheaper (hcard : S.card = T.card)
    (h : ∀ t ∈ T, ∀ s ∈ S, s ∉ T → cost t ≤ cost s) :
    ∑ s ∈ S, cost s = ∑ t ∈ T, cost t ↔ S.val.map cost = T.val.map cost := by
  obtain ⟨e, he, hsums⟩ := exists_pairing hcard
  have hle : ∀ t ∈ (Finset.univ : Finset (T \ S : Finset ι)), cost t ≤ cost (e t) :=
    fun t _ => h t (Finset.mem_sdiff.mp t.2).1 (e t) (he t).1 (he t).2
  constructor
  · intro heq
    rw [(hsums cost).1, (hsums cost).2, add_left_inj, eq_comm,
      Finset.sum_eq_sum_iff_of_le hle] at heq
    have hval : ∀ U : Finset ι, U.val.map cost = ∑ u ∈ U, ({cost u} : Multiset K) := by
      intro U
      rw [Finset.sum_eq_multiset_sum, ← Multiset.sum_map_singleton (U.val.map cost),
        Multiset.map_map]
      rfl
    rw [hval, hval, (hsums fun i => ({cost i} : Multiset K)).1,
      (hsums fun i => ({cost i} : Multiset K)).2]
    congr 1
    exact Finset.sum_congr rfl fun t ht => by rw [heq t ht]
  · intro heq
    exact congrArg Multiset.sum heq

/-- The same for lists without repetitions. -/
theorem sum_map_of_cheaper {l m : List ι} (hl : l.Nodup) (hm : m.Nodup)
    (hlength : l.length = m.length) (h : ∀ t ∈ m, ∀ s ∈ l, s ∉ m → cost t ≤ cost s) :
    (m.map cost).sum ≤ (l.map cost).sum ∧
      ((l.map cost).sum = (m.map cost).sum ↔
        (l.map cost : Multiset K) = (m.map cost : Multiset K)) := by
  have hcard : l.toFinset.card = m.toFinset.card := by
    rw [List.toFinset_card_of_nodup hl, List.toFinset_card_of_nodup hm, hlength]
  have hcheaper : ∀ t ∈ m.toFinset, ∀ s ∈ l.toFinset, s ∉ m.toFinset → cost t ≤ cost s := by
    intro t ht s hs hsm
    exact h t (List.mem_toFinset.mp ht) s (List.mem_toFinset.mp hs)
      fun hmem => hsm (List.mem_toFinset.mpr hmem)
  have hval : ∀ {n : List ι}, n.Nodup → n.toFinset.val.map cost = (n.map cost : Multiset K) := by
    intro n hn
    rw [List.toFinset_val, hn.dedup, Multiset.map_coe]
  rw [← List.sum_toFinset cost hl, ← List.sum_toFinset cost hm, ← hval hl, ← hval hm]
  exact ⟨sum_le_of_cheaper hcard hcheaper, sum_eq_iff_of_cheaper hcard hcheaper⟩

end Spheres.Library
