import Spheres.Qwen.Layer

/-!
# The run of a layer

A layer runs to its end in every memory that is full. It writes one row of the
value cache, and what it makes of the hidden states depends on these, on the row
that the heads have mixed and on the weights (`forwardLayer_ok`).
-/

namespace Spheres.Qwen

open Library

variable {R : Type*} [Field R] (F : MathFunctions R) (weights : QwenWeights) {n l pos : Nat}
  {m : Memory R} {x r : Nat → R}

/-! ## The heads together -/

section Heads

variable [LinearOrder R]

/-- What the heads leave in the residual buffer. -/
def mixedRow (n : Nat) (m : Memory R) (l pos j : Nat) : R :=
  mixed n m l pos (j / 128) (headShare F n m l pos (j / 128)) (j % 128)

theorem mixedRow_congr {m' : Memory R} (hq : m' .q = m .q) (hk : m' .keyCache = m .keyCache)
    (hv : m' .valueCache = m .valueCache) : mixedRow F n m' l pos = mixedRow F n m l pos := by
  funext j
  simp only [mixedRow, mixed_congr hv, headShare, headScore_congr F hq hk]

/-- The state after the first `k` heads, from the memory `m`. -/
structure Attended (n : Nat) (m : Memory R) (l pos k : Nat) (s : Scratch R) : Prop where
  tensors : s.tensors = setupBuffers n
  full : s.memory.Full
  same : ∀ b, b ≠ .attention → b ≠ .residual → s.memory b = m b
  row : s.memory.Holds .residual 0 (k * 128) (mixedRow F n m l pos)

/-- A head writes the next part of the row. -/
theorem Attended.attendHead {k : Nat} {s : Scratch R} (h : Attended F n m l pos k s)
    (hl : l < 28) (hpos : pos < n) (hk : k < 16) :
    ∃ s', attendHead F l pos k s = .ok s' ∧ Attended F n m l pos (k + 1) s' := by
  obtain ⟨t, m'⟩ := s
  obtain ⟨rfl, hfull, hsame, hrow⟩ := h
  have hrun := attendHead_eq F hl hpos hk hfull
  have hmixed : mixedRow F n m' l pos = mixedRow F n m l pos :=
    mixedRow_congr F (hsame .q nofun nofun) (hsame .keyCache nofun nofun)
      (hsame .valueCache nofun nofun)
  refine ⟨_, hrun, rfl, hfull.fill.fill, fun b ha hr => ?_, fun i hi => ?_⟩
  · exact (Cells.fill_of_ne hr).trans ((Cells.fill_of_ne ha).trans (hsame b ha hr))
  · rw [Nat.zero_add]
    by_cases hlt : i < k * 128
    · have hold := hrow i hlt
      rw [Nat.zero_add] at hold
      have hframe : ∀ f, (m'.fill .attention (k * n) (pos + 1) f) .residual = m' .residual :=
        fun f => Cells.fill_of_ne nofun
      exact (Cells.fill_outside (Or.inl hlt)).trans ((congrFun (hframe _) i).trans hold)
    · obtain ⟨j, rfl⟩ := Nat.exists_eq_add_of_le (not_lt.mp hlt)
      have hj : j < 128 := by omega
      refine (Cells.fill_inside hj).trans ?_
      rw [← hmixed, mixedRow, show (k * 128 + j) / 128 = k by omega,
        show (k * 128 + j) % 128 = j by omega]

theorem attendHeads_ok {k : Nat} (hl : l < 28) (hpos : pos < n) (hk : k ≤ 16) (hm : m.Full) :
    ∃ m', forRange k (attendHead F l pos) ⟨setupBuffers n, m⟩ = .ok ⟨setupBuffers n, m'⟩ ∧
      m'.Full ∧ (∀ b, b ≠ .attention → b ≠ .residual → m' b = m b) ∧
      m'.Holds .residual 0 (k * 128) (mixedRow F n m l pos) := by
  have hstart : Attended F n m l pos 0 ⟨setupBuffers n, m⟩ :=
    ⟨rfl, hm, fun _ _ _ => rfl, fun i hi => by omega⟩
  obtain ⟨⟨t, m'⟩, hrun, rfl, hfull, hsame, hrow⟩ := forRange_ok (Attended F n m l pos) hstart
    fun i hi s hs => hs.attendHead F hl hpos (hi.trans_le hk)
  exact ⟨m', hrun, hfull, hsame, hrow⟩

end Heads

/-! ## The output of the layer -/

/-- The hidden states after the attention has left `r`. -/
def afterAttention (l : Nat) (x r : Nat → R) (i : Nat) : R :=
  x i + productInPlace bf16 ⟨weights.getWeightsOfLayer .selfAttnOProj l, 1024, 2048⟩ r 1024 i

/-- The input of the network, and its product with one of the arrays before the
hidden layer. -/
def mlpInput (l : Nat) (x : Nat → R) : Nat → R :=
  rmsNormed F rmsNormEps (weights.getWeightsOfLayer .postAttentionLayernorm l) 1024 x

def mlpProjection (name : LayerWeight) (l : Nat) (x : Nat → R) (i : Nat) : R :=
  innerProduct bf16 (weightRow (weights.getWeightsOfLayer name l) 1024 i) 1024 (mlpInput F weights l x)

/-- The hidden layer of the network. -/
def mlpHidden (l : Nat) (x : Nat → R) (i : Nat) : R :=
  let gate := mlpProjection F weights .mlpGateProj l x i
  sigmoidScalar F gate * gate * mlpProjection F weights .mlpUpProj l x i

def mlpDown (l : Nat) (x : Nat → R) (i : Nat) : R :=
  innerProduct bf16 (weightRow (weights.getWeightsOfLayer .mlpDownProj l) 3072 i) 3072
    (mlpHidden F weights l x)

def mlpOutput (l : Nat) (x : Nat → R) (i : Nat) : R := x i + mlpDown F weights l x i

/-- The hidden states after a layer whose attention has left `r`. -/
def layerOutput (l : Nat) (x r : Nat → R) : Nat → R :=
  mlpOutput F weights l (afterAttention weights l x r)

theorem addResidual_eq (hx : m.Holds .hiddenStates 0 1024 x) (hr : m.Holds .residual 0 1024 r) :
    addResidual (setupBuffers n) m = .ok (m.fill .hiddenStates 0 1024 fun i => x i + r i) := by
  apply forRange_fill
  intro i hi
  have hr' : (m.fill .hiddenStates 0 i fun i => x i + r i).Holds .residual 0 1024 r :=
    hr.fill_of_ne nofun
  refine bind_of_ok (Tensor.value_vector ((Cells.fill_next fun _ => rfl).trans (hx i hi))) ?_
  exact bind_of_ok (Tensor.value_vector (hr' i hi)) rfl

theorem projectOutput_ok (hm : m.Full) (hx : m.Holds .hiddenStates 0 1024 x)
    (hr : m.Holds .residual 0 2048 r) :
    ∃ m', projectOutput weights l (setupBuffers n) m = .ok m' ∧ m'.Full ∧
      (∀ b, b ≠ .hiddenStates → b ≠ .residual → m' b = m b) ∧
      m'.Holds .hiddenStates 0 1024 (afterAttention weights l x r) := by
  have hproduct : matrixMultiplyVectorBf16F32 bf16 ⟨weights.getWeightsOfLayer .selfAttnOProj l, 1024, 2048⟩
      (.vector .residual 0 2048) (.vector .residual 0 2048) m = _ :=
    matrixMultiplyVectorBf16F32_inPlace bf16 _ hr (show 1024 ≤ 2048 by omega) le_rfl
  refine ⟨_, bind_of_ok hproduct (addResidual_eq (hx.fill_of_ne nofun)
    (Cells.holds_fill.mono (show 1024 ≤ 2048 by omega))), hm.fill.fill, fun b hb hr => ?_, ?_⟩
  · exact (Cells.fill_of_ne hb).trans (Cells.fill_of_ne hr)
  · exact Cells.holds_fill

theorem mlp_eq (hx : m.Holds .hiddenStates 0 1024 x) :
    mlp F weights l (setupBuffers n) m =
      .ok ((((((m.fill .residual 0 1024 (mlpInput F weights l x)).fill
        .mlpBuffer1 0 3072 (mlpProjection F weights .mlpGateProj l x)).fill
        .mlpBuffer2 0 3072 (mlpProjection F weights .mlpUpProj l x)).fill
        .mlpBuffer1 0 3072 (mlpHidden F weights l x)).fill
        .residual 0 1024 (mlpDown F weights l x)).fill
        .hiddenStates 0 1024 (mlpOutput F weights l x)) := by
  have hres : ∀ (m : Memory R) f, (m.fill .residual 0 1024 f).Holds .residual 0 1024 f :=
    fun _ _ => Cells.holds_fill
  refine bind_of_ok (rmsNormFloatBf16Weights_eq F _ _ hx nofun) ?_
  refine bind_of_ok (matrixMultiplyVectorBf16F32_eq bf16 _ (hres _ _) nofun) ?_
  refine bind_of_ok (matrixMultiplyVectorBf16F32_eq bf16 _ ((hres _ _).fill_of_ne nofun) nofun) ?_
  refine bind_of_ok (swigluFloatVector_eq F (Cells.holds_fill.fill_of_ne nofun) Cells.holds_fill
    nofun) ?_
  refine bind_of_ok (matrixMultiplyVectorBf16F32_eq bf16 _ Cells.holds_fill nofun) ?_
  exact addResidual_eq (hx.congr rfl) (hres _ _)

theorem mlp_ok (hm : m.Full) (hx : m.Holds .hiddenStates 0 1024 x) :
    ∃ m', mlp F weights l (setupBuffers n) m = .ok m' ∧ m'.Full ∧
      (∀ b, b = .q ∨ b = .keyCache ∨ b = .valueCache → m' b = m b) ∧
      m'.Holds .hiddenStates 0 1024 (mlpOutput F weights l x) := by
  refine ⟨_, mlp_eq F weights hx, hm.fill.fill.fill.fill.fill.fill, fun b hb => ?_,
    Cells.holds_fill⟩
  rcases hb with rfl | rfl | rfl <;> rfl

/-! ## The layer -/

/-- A layer after its heads have been normalised. -/
theorem forwardLayer_ok [LinearOrder R] {m₂ : Memory R} (hl : l < 28) (hpos : pos < n)
    (hx : m.Holds .hiddenStates 0 1024 x)
    (hheads : normalizeHeads F weights l pos (setupBuffers n)
      ((((setupBuffers n).keyCache.slice l).slice pos).reshape2 8 128)
      (projected F weights n l pos x m) = .ok m₂)
    (hfull : m₂.Full)
    (hsame : ∀ b, b ≠ .q → b ≠ .keyCache → m₂ b = projected F weights n l pos x m b)
    (hr : ∀ j < 2048, mixedRow F n m₂ l pos j = r j) :
    ∃ m', forwardLayer F weights pos l ⟨setupBuffers n, m⟩ = .ok ⟨setupBuffers n, m'⟩ ∧
      m'.Full ∧ m' .q = m₂ .q ∧ m' .keyCache = m₂ .keyCache ∧
      m' .valueCache = (m.fill .valueCache (rowStart n l pos) 1024 (valueRow F weights l x))
        .valueCache ∧
      m'.Holds .hiddenStates 0 1024 (layerOutput F weights l x r) := by
  obtain ⟨m₃, hrun₃, hfull₃, hsame₃, hrow₃⟩ := attendHeads_ok F hl hpos le_rfl hfull
  have hx₃ : m₃.Holds .hiddenStates 0 1024 x := by
    refine hx.congr ?_
    rw [hsame₃ .hiddenStates nofun nofun, hsame .hiddenStates nofun nofun]
    rfl
  obtain ⟨m₄, hrun₄, hfull₄, hsame₄, hx₄⟩ := projectOutput_ok weights (n := n) (l := l) hfull₃ hx₃
    (hrow₃.congr_values hr)
  obtain ⟨m₅, hrun₅, hfull₅, hsame₅, hx₅⟩ := mlp_ok F weights (n := n) (l := l) hfull₄ hx₄
  have hq : m₅ .q = m₂ .q := by
    rw [hsame₅ .q (Or.inl rfl), hsame₄ .q nofun nofun, hsame₃ .q nofun nofun]
  have hk : m₅ .keyCache = m₂ .keyCache := by
    rw [hsame₅ .keyCache (Or.inr (Or.inl rfl)), hsame₄ .keyCache nofun nofun,
      hsame₃ .keyCache nofun nofun]
  have hv : m₅ .valueCache = m₂ .valueCache := by
    rw [hsame₅ .valueCache (Or.inr (Or.inr rfl)), hsame₄ .valueCache nofun nofun,
      hsame₃ .valueCache nofun nofun]
  refine ⟨m₅, bind_of_ok (projectAttention_eq F weights hl hpos hx) (bind_of_ok hheads
    (bind_of_ok hrun₃ (bind_of_ok hrun₄ (bind_of_ok hrun₅ rfl)))), hfull₅, hq, hk, ?_, hx₅⟩
  rw [hv, hsame .valueCache nofun nofun]
  rfl

/-! ## The result -/

/-- The embedding is read from the hidden states. -/
theorem embedding_of_hidden [LinearOrder R] {m' : Memory R} {encode : List UInt8 → List Int}
    {query : List UInt8} (hlength : (encode query).length = n)
    (hrun : (encode query).zipIdx.foldlM (forwardToken F weights) ⟨setupBuffers n, m⟩ =
      .ok ⟨setupBuffers n, m'⟩)
    (hx : m'.Holds .hiddenStates 0 1024 x) :
    calculateQwenEmbedding F weights encode query m = .ok ((List.range 1024).map x) := by
  rw [← hlength] at hrun
  exact bind_of_ok hrun (Tensor.readSpan_vector hx)

end Spheres.Qwen
