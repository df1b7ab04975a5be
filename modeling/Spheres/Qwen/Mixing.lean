import Spheres.Qwen.Layer
import Mathlib.Algebra.Order.Ring.Rat

/-!
# The values that a head mixes

From the second position on the mixing loop reads the row of the current position
in place of that of the loop variable. What it leaves is the sum over all positions
if the weights of the later positions cancel against the difference of these rows.
-/

namespace Spheres.Qwen

open Library

variable {n l pos h : Nat}

/-- The scores of a head up to a position. -/
def attentionUpToPos (n pos h : Nat) : Tensor where
  size := pos + 1
  data := ((setupBuffers n).attention.slice h).data
  dim := 1
  s1 := pos + 1

/-- The part of the residual buffer of a head. -/
def currentResidual (n h : Nat) : Tensor :=
  ((setupBuffers n).residual.reshape2 config.numAttentionHeads config.headDim).slice h

theorem attendHead_mixes {K : Type*} [Field K] [LinearOrder K] (F : MathFunctions K)
    (m : Memory K) :
    attendHead F l pos h ⟨setupBuffers n, m⟩ =
      (do
        let m ← scoreHead F l pos h (setupBuffers n) m
        let m ← softmaxVectorFloat F (attentionUpToPos n pos h) m
        let m ← accumulateValues l pos h (setupBuffers n).valueCache (attentionUpToPos n pos h)
          (currentResidual n h) m
        return ⟨{ setupBuffers n with
          residual := ((setupBuffers n).residual.reshape2 config.numAttentionHeads
            config.headDim).flatten }, m⟩) :=
  rfl

variable {R : Type*} [CommRing R] {c : Buffer → Nat → R}

/-- The weight of position `p` for a head. -/
def weightAt (n h : Nat) (c : Buffer → Nat → R) (p : Nat) : R := c .attention (h * n + p)

/-- Head `h / 2` of the row of the value cache at position `p`. -/
def valueAt (n l h : Nat) (c : Buffer → Nat → R) (p i : Nat) : R :=
  c .valueCache (rowStart n l p + h / 2 * 128 + i)

/-- The mixing loops leave the weighted sum of the rows in the part of their head, and
the parts of the other heads as they were. -/
def Mixes (n l pos h : Nat) (c : Buffer → Nat → R) : Prop :=
  ∃ m', accumulateValues l pos h (setupBuffers n).valueCache (attentionUpToPos n pos h)
      (currentResidual n h) (.ofContents c) = .ok m' ∧
    (∀ i < 128, (currentResidual n h).elem m' i =
      .ok (∑ p ∈ Finset.range (pos + 1), weightAt n h c p * valueAt n l h c p i)) ∧
    ∀ h' < 16, h' ≠ h → ∀ i < 128,
      (currentResidual n h').elem m' i = .ok (c .residual (h' * 128 + i))

/-- What the loops leave for a head. -/
def leftFor (n l pos h : Nat) (c : Buffer → Nat → R) (i : Nat) : R :=
  valueAt n l h c 0 i * weightAt n h c 0 +
    ∑ p ∈ Finset.range pos, valueAt n l h c pos i * weightAt n h c (p + 1)

theorem accumulateValues_run (hl : l < 28) (hpos : pos < n) (hh : h < 16) :
    accumulateValues l pos h (setupBuffers n).valueCache (attentionUpToPos n pos h)
        (currentResidual n h) (.ofContents c) =
      .ok ((Memory.ofContents c).fill .residual (h * 128) 128 (leftFor n l pos h c)) := by
  have hattention : attentionUpToPos n pos h = .vector .attention (h * n) (pos + 1) := by
    rw [attentionUpToPos, setupBuffers_attention_slice hh (by omega)]
    rfl
  have hresidual : currentResidual n h = .vector .residual (h * 128) 128 := residual_slice hh
  rw [hattention, hresidual]
  exact accumulateValues_eq hl hpos hh (fun b i => ⟨c b i, rfl⟩) (fun p _ => rfl) nofun

/-- How the result differs from the weighted sum. -/
theorem leftFor_sub (i : Nat) :
    leftFor n l pos h c i - ∑ p ∈ Finset.range (pos + 1), weightAt n h c p * valueAt n l h c p i =
      ∑ p ∈ Finset.range pos,
        weightAt n h c (p + 1) * (valueAt n l h c pos i - valueAt n l h c (p + 1) i) := by
  rw [leftFor, Finset.sum_range_succ', add_comm (∑ _ ∈ _, _) (weightAt n h c 0 * _),
    mul_comm (weightAt n h c 0), add_sub_add_left_eq_sub, ← Finset.sum_sub_distrib]
  apply Finset.sum_congr rfl
  intro p _
  ring

theorem mixes_iff (hl : l < 28) (hpos : pos < n) (hh : h < 16) :
    Mixes n l pos h c ↔ ∀ i < 128, ∑ p ∈ Finset.range pos,
      weightAt n h c (p + 1) * (valueAt n l h c pos i - valueAt n l h c (p + 1) i) = 0 := by
  have hrun := accumulateValues_run (c := c) hl hpos hh
  have hhead : ∀ i < 128, (currentResidual n h).elem ((Memory.ofContents c).fill .residual (h * 128)
      128 (leftFor n l pos h c)) i = .ok (leftFor n l pos h c i) := by
    intro i hi
    rw [currentResidual]
    exact (congrArg (Tensor.elem · _ i) (residual_slice hh)).trans
      (Tensor.elem_vector (Cells.fill_inside hi))
  constructor
  · rintro ⟨m', hrun', hmix, -⟩ i hi
    rw [hrun] at hrun'
    cases hrun'
    have heq := Except.ok.inj ((hhead i hi).symm.trans (hmix i hi))
    rw [← leftFor_sub, heq, sub_self]
  · intro hzero
    refine ⟨_, hrun, fun i hi => ?_, fun h' hh' hne i hi => ?_⟩
    · rw [hhead i hi, sub_eq_zero.mp ((leftFor_sub i).trans (hzero i hi))]
    · refine (congrArg (Tensor.elem · _ i) (residual_slice hh')).trans (Tensor.elem_vector ?_)
      exact Cells.fill_outside (by omega)

/-- Weights and values that are 1 at position 1, and 0 elsewhere. -/
def valueOfOne (b : Buffer) (i : Nat) : ℚ :=
  if (b = .attention ∧ i = 1) ∨ (b = .valueCache ∧ i = 1024) then 1 else 0

theorem mixes_iff_three : Mixes 3 0 2 0 valueOfOne ↔ ∀ i < 128, ∑ p ∈ Finset.range 2,
    weightAt 3 0 valueOfOne (p + 1) *
      (valueAt 3 0 0 valueOfOne 2 i - valueAt 3 0 0 valueOfOne (p + 1) i) = 0 :=
  mixes_iff (by decide) (by decide) (by decide)

/-- The third token reads its own row in place of the second one's. -/
theorem not_mixes : ¬Mixes 3 0 2 0 valueOfOne := by
  rintro ⟨m', hrun, hmix, -⟩
  rw [accumulateValues_run (by decide) (by decide) (by decide)] at hrun
  cases hrun
  have hhead : (currentResidual 3 0).elem ((Memory.ofContents valueOfOne).fill .residual (0 * 128) 128
      (leftFor 3 0 2 0 valueOfOne)) 0 = .ok (leftFor 3 0 2 0 valueOfOne 0) :=
    (congrArg (Tensor.elem · _ 0) (residual_slice (by decide))).trans
      (Tensor.elem_vector (Cells.fill_inside (by decide)))
  have heq := sub_eq_zero.mpr (Except.ok.inj (hhead.symm.trans (hmix 0 (by decide))))
  rw [leftFor_sub] at heq
  revert heq
  decide +kernel

end Spheres.Qwen
