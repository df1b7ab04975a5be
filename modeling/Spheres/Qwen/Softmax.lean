import Spheres.Qwen.Math
import Mathlib.Algebra.Order.BigOperators.Ring.Finset
import Mathlib.Order.WithBot

/-!
# The softmax of a row of scores

`share` is the weight that the softmax leaves for one score. The shares of at
least one score add up to one if the exponential is positive; the share of a
single score does not depend on it.
-/

namespace Spheres.Qwen

open Library

variable {R : Type*} [Field R] [LinearOrder R] (F : MathFunctions R) {s : Nat → R}
  {b : Buffer} {p n : Nat} {m : Memory R}

/-- The maximum of the first scores, as the loop has it. -/
def runningMax (s : Nat → R) : Nat → WithBot R
  | 0 => ⊥
  | k + 1 => if runningMax s k > s k then runningMax s k else s k

def shifted (s : Nat → R) (n i : Nat) : R := F.exp (s i - (runningMax s n).unbotD 0)

/-- What the softmax of the first `n` scores leaves in place of score `i`. -/
def share (s : Nat → R) (n i : Nat) : R :=
  1 / (∑ j ∈ Finset.range n, shifted F s n j) * shifted F s n i

omit [Field R] in
theorem maxFloatArray_eq (hx : m.Holds b p n s) :
    maxFloatArray (.vector b p n) m = .ok (runningMax s n) := by
  apply forRange_eq (runningMax s) rfl
  intro i hi
  rw [Tensor.value_vector (hx i hi), ok_bind]
  rfl

theorem softmaxVectorFloat_eq (hx : m.Holds b p n s) :
    softmaxVectorFloat F (.vector b p n) m = .ok (m.fill b p n (share F s n)) := by
  refine bind_of_ok (maxFloatArray_eq hx) (bind_of_ok (forRange_eq
    (fun i => (∑ j ∈ Finset.range i, shifted F s n j, m.fill b p i (shifted F s n)))
    ?_ fun i hi => ?_) ?_)
  · rw [Finset.sum_range_zero, Cells.fill_zero]
  · simp only
    rw [Tensor.value_vector ((Cells.fill_next fun _ => rfl).trans (hx i hi)), ok_bind,
      Finset.sum_range_succ, ← Cells.fill_write]
    rfl
  · refine (scaleVectorFloat_eq Cells.holds_fill).trans ?_
    rw [Cells.fill_fill]
    rfl

/-! ## The shares -/

omit [Field R] in
theorem runningMax_succ (k : Nat) :
    runningMax s (k + 1) = max (runningMax s k) (s k) := by
  rw [runningMax, max_comm]
  split
  · rename_i h
    exact (max_eq_right h.le).symm
  · rename_i h
    exact (max_eq_left (not_lt.mp h)).symm

omit [Field R] in
/-- The loop finds the greatest score. -/
theorem runningMax_eq {M : R} {k : Nat} (hk : k < n) (hM : s k = M) (hle : ∀ j < n, s j ≤ M) :
    runningMax s n = M := by
  have hsup : ∀ i, runningMax s i = (Finset.range i).sup fun j => (s j : WithBot R) := by
    intro i
    induction i with
    | zero => rfl
    | succ i ih => rw [runningMax_succ, ih, Finset.range_add_one, Finset.sup_insert, max_comm]
  rw [hsup]
  apply le_antisymm
  · apply Finset.sup_le
    intro j hj
    exact WithBot.coe_le_coe.mpr (hle j (Finset.mem_range.mp hj))
  · rw [← hM]
    exact Finset.le_sup (f := fun j => (s j : WithBot R)) (Finset.mem_range.mpr hk)

theorem share_one : share F s 1 0 = 1 / F.exp 0 * F.exp 0 := by
  have hmax : runningMax s 1 = s 0 := runningMax_eq Nat.one_pos rfl fun j hj => by
    rw [Nat.lt_one_iff.mp hj]
  have hshift : shifted F s 1 0 = F.exp 0 := by
    rw [shifted, hmax, WithBot.unbotD_coe, sub_self]
  rw [share, Finset.sum_range_one, hshift]

/-- The shares of at least one score add up to one. -/
theorem sum_share [IsStrictOrderedRing R] (hexp : ∀ x, 0 < F.exp x) (hn : 0 < n) :
    ∑ i ∈ Finset.range n, share F s n i = 1 := by
  have hpos : 0 < ∑ j ∈ Finset.range n, shifted F s n j :=
    Finset.sum_pos (fun _ _ => hexp _) ⟨0, Finset.mem_range.mpr hn⟩
  simp only [share]
  rw [← Finset.mul_sum, one_div, inv_mul_cancel₀ hpos.ne']

end Spheres.Qwen
