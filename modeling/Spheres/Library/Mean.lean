import Mathlib.Algebra.Order.BigOperators.Group.List
import Mathlib.Algebra.Order.Field.Basic
import Mathlib.Tactic.Linarith
import Mathlib.Tactic.NormNum

/-!
# Arithmetic means

The mean of a list is monotone in its entries, and when the entries of one list are
bounded by those of another the means agree only if all entries do.
-/

namespace Spheres.Library

variable {α K : Type*} [Field K] [LinearOrder K] [IsStrictOrderedRing K]

def mean (xs : List K) : K := xs.sum / xs.length

omit [LinearOrder K] [IsStrictOrderedRing K] in
theorem mean_map (f : α → K) (l : List α) : mean (l.map f) = (l.map f).sum / l.length := by
  rw [mean, List.length_map]

/-- Sums of bounded entries agree only if the entries do. -/
theorem sum_map_eq_iff {l : List α} {f g : α → K} (h : ∀ x ∈ l, f x ≤ g x) :
    (l.map f).sum = (l.map g).sum ↔ ∀ x ∈ l, f x = g x := by
  constructor
  · intro heq
    induction l with
    | nil => exact fun x hx => absurd hx List.not_mem_nil
    | cons a l ih =>
      obtain ⟨ha, hl⟩ := List.forall_mem_cons.mp h
      have hsum : (l.map f).sum ≤ (l.map g).sum := List.sum_le_sum hl
      simp only [List.map_cons, List.sum_cons] at heq
      exact List.forall_mem_cons.mpr ⟨by linarith, ih hl (by linarith)⟩
  · intro heq
    rw [List.map_congr_left heq]

section Nonempty

variable {l : List α} {f g : α → K}

private theorem length_pos_cast (hl : l ≠ []) : (0 : K) < l.length :=
  Nat.cast_pos.mpr (List.length_pos_iff.mpr hl)

theorem mean_le_mean (h : ∀ x ∈ l, f x ≤ g x) : mean (l.map f) ≤ mean (l.map g) := by
  rw [mean_map, mean_map]
  exact div_le_div_of_nonneg_right (List.sum_le_sum h) (Nat.cast_nonneg _)

theorem mean_eq_iff (hl : l ≠ []) (h : ∀ x ∈ l, f x ≤ g x) :
    mean (l.map f) = mean (l.map g) ↔ ∀ x ∈ l, f x = g x := by
  rw [mean_map, mean_map, div_left_inj' (length_pos_cast hl).ne', sum_map_eq_iff h]

theorem mean_const (hl : l ≠ []) (a : K) : mean (l.map fun _ => a) = a := by
  rw [mean_map, List.map_const', List.sum_replicate, nsmul_eq_mul]
  exact mul_div_cancel_left₀ a (length_pos_cast hl).ne'

theorem mean_nonneg (h : ∀ x ∈ l, 0 ≤ f x) : 0 ≤ mean (l.map f) := by
  rw [mean_map]
  refine div_nonneg (List.sum_nonneg fun y hy => ?_) (Nat.cast_nonneg _)
  obtain ⟨x, hx, rfl⟩ := List.mem_map.mp hy
  exact h x hx

theorem mean_le (hl : l ≠ []) {a : K} (h : ∀ x ∈ l, f x ≤ a) : mean (l.map f) ≤ a :=
  (mean_le_mean h).trans_eq (mean_const hl a)

/-- A mean reaches a bound of the entries only if all entries do. -/
theorem mean_eq_bound (hl : l ≠ []) {a : K} (h : ∀ x ∈ l, f x ≤ a) :
    mean (l.map f) = a ↔ ∀ x ∈ l, f x = a := by
  rw [← mean_eq_iff hl h, mean_const hl]

end Nonempty

end Spheres.Library
