import Spheres.Qwen.Softmax
import Spheres.Qwen.Transformer

/-!
# What a layer computes

The parts of a layer as functions of what they read. `q` and the row of `k` have
two dimensions when the projections write them, so these writes do nothing
(`projectAttention_eq`): the heads that are normalised hold what was there before.
-/

namespace Spheres.Qwen

open Library

variable {R : Type*} [Field R] (F : MathFunctions R) (weights : QwenWeights) {n l pos h : Nat}
  {m : Memory R} {x y r : Nat → R}

/-! ## The tensors -/

/-- Where the row of a position begins in a cache. -/
def rowStart (n l p : Nat) : Nat := (l * n + p) * 1024

theorem setupBuffers_q_slice (hh : h < 16) :
    (setupBuffers n).q.slice h = .vector .q (h * 128) 128 :=
  Tensor.slice_malloc_reshape2 .q (show 16 * 128 = 2048 from rfl) hh (by omega)

theorem setupBuffers_attention_slice (hh : h < 16) (hn : 0 < n) :
    (setupBuffers n).attention.slice h = .vector .attention (h * n) n :=
  Tensor.slice_malloc_reshape2 .attention rfl hh hn

theorem residual_slice (hh : h < 16) :
    ((setupBuffers n).residual.reshape2 16 128).slice h = .vector .residual (h * 128) 128 :=
  Tensor.slice_malloc_reshape2 .residual (show 16 * 128 = 2048 from rfl) hh (by omega)

/-- The buffer is one-dimensional again after it has been split into heads. -/
theorem residual_flatten :
    ((setupBuffers n).residual.reshape2 config.numAttentionHeads config.headDim).flatten =
      (setupBuffers n).residual :=
  Tensor.flatten_reshape2

/-- The rows of the caches are one-dimensional. -/
theorem cache_slice (b : Buffer) (hl : l < 28) (hpos : pos < n) :
    (((Tensor.malloc b (1024 * 28 * n)).reshape3 28 n 1024).slice l).slice pos =
      .vector b (rowStart n l pos) 1024 :=
  Tensor.slice_slice_malloc_reshape3 b (by ring) hl hpos (by omega)

theorem cache_headOfRow (b : Buffer) (hl : l < 28) (hpos : pos < n) (hh : h < 16) :
    headOfRow ((Tensor.malloc b (1024 * 28 * n)).reshape3 28 n 1024) l pos h =
      .vector b (rowStart n l pos + h / 2 * 128) 128 := by
  rw [headOfRow, cache_slice b hl hpos]
  exact Tensor.slice_reshape2 rfl (show h / 2 < 8 by omega) (show 0 < 128 by omega)

/-! ## Mixing the values -/

section Values

variable {R : Type*} [CommRing R] {n l pos h : Nat} {m : Memory R}

/-- What a row of the value cache holds for a head. -/
def headValue (n : Nat) (m : Memory R) (l h p : Nat) : Nat → R :=
  m.values .valueCache (rowStart n l p + h / 2 * 128)

/-- The values of a head, mixed with the weights `a`: after the row of position 0,
the row of `pos` is added each time. -/
def mixed (n : Nat) (m : Memory R) (l pos h : Nat) (a : Nat → R) (i : Nat) : R :=
  headValue n m l h 0 i * a 0 + ∑ p ∈ Finset.range pos, headValue n m l h pos i * a (p + 1)

omit [CommRing R] in
theorem values_congr [Zero R] {m' : Memory R} {b : Buffer} {o : Nat} (hb : m' b = m b) :
    m'.values b o = m.values b o := by
  funext i
  rw [Cells.values, hb]
  rfl

theorem mixed_congr {m' : Memory R} {a : Nat → R} (hv : m' .valueCache = m .valueCache) :
    mixed n m' l pos h a = mixed n m l pos h a := by
  funext i
  simp only [mixed, headValue, values_congr hv]

theorem accumulateValues_eq {b : Buffer} {o size : Nat} {a : Nat → R} (hl : l < 28) (hpos : pos < n)
    (hh : h < 16) (hm : m.Full) (ha : m.Holds b o (pos + 1) a) (hb : b ≠ .residual) :
    accumulateValues l pos h (setupBuffers n).valueCache (.vector b o size)
        (.vector .residual (h * 128) 128) m =
      .ok (m.fill .residual (h * 128) 128 (mixed n m l pos h a)) := by
  have hv : ∀ p < n, headOfRow (setupBuffers n).valueCache l p h =
      .vector .valueCache (rowStart n l p + h / 2 * 128) 128 :=
    fun p hp => cache_headOfRow .valueCache hl hp hh
  have hvalues : ∀ p, m.Holds .valueCache (rowStart n l p + h / 2 * 128) 128
      (headValue n m l h p) := fun p => hm.holds
  refine bind_of_ok (Tensor.value_vector (ha 0 (by omega))) ?_
  rw [hv 0 (by omega)]
  refine bind_of_ok (elementWiseOverwrite_eq (hvalues 0) nofun) ?_
  apply forRange_eq (fun k => m.fill .residual (h * 128) 128 fun i => headValue n m l h 0 i * a 0 +
    ∑ p ∈ Finset.range k, headValue n m l h pos i * a (p + 1))
  · simp only [Finset.sum_range_zero, add_zero]
  · intro k hk
    refine bind_of_ok (Tensor.value_vector (ha.fill_of_ne hb (k + 1) (by omega))) ?_
    rw [hv pos hpos]
    have hread : ∀ f, (m.fill .residual (h * 128) 128 f).Holds .valueCache
        (rowStart n l pos + h / 2 * 128) 128 (headValue n m l h pos) :=
      fun f => (hvalues pos).fill_of_ne nofun
    refine (elementWiseAdd_eq (hread _) Cells.holds_fill nofun).trans ?_
    rw [Cells.fill_fill]
    refine congrArg _ (Cells.fill_congr fun i _ => ?_)
    rw [Finset.sum_range_succ]
    ring

end Values

/-! ## Projections -/

/-- Row `i` of an array of weights whose rows have `n` numbers. -/
def weightRow (w : Nat → UInt16) (n i : Nat) : Nat → UInt16 := fun j => w (i * n + j)

/-- The row of the value cache of a layer with the input `x`. -/
def valueRow (l : Nat) (x : Nat → R) (i : Nat) : R :=
  innerProduct bf16 (weightRow (weights.getWeightsOfLayer .selfAttnVProj l) 1024 i) 1024
    (rmsNormed F rmsNormEps (weights.getWeightsOfLayer .inputLayernorm l) 1024 x)

/-- The memory after the projections. -/
def projected (n l pos : Nat) (x : Nat → R) (m : Memory R) : Memory R :=
  (m.fill .residual 0 1024
    (rmsNormed F rmsNormEps (weights.getWeightsOfLayer .inputLayernorm l) 1024 x)).fill
    .valueCache (rowStart n l pos) 1024 (valueRow F weights l x)

/-- The projections to `q` and `k` write nothing. -/
theorem projectAttention_eq (hl : l < 28) (hpos : pos < n)
    (hx : m.Holds .hiddenStates 0 1024 x) :
    projectAttention F weights l (setupBuffers n)
        ((((setupBuffers n).keyCache.slice l).slice pos).reshape2 8 128)
        (((setupBuffers n).valueCache.slice l).slice pos) m =
      .ok (projected F weights n l pos x m) := by
  have hv : ((setupBuffers n).valueCache.slice l).slice pos =
      .vector .valueCache (rowStart n l pos) 1024 := cache_slice .valueCache hl hpos
  have hk : (((setupBuffers n).keyCache.slice l).slice pos).reshape2 8 128 =
      (Tensor.vector .keyCache (rowStart n l pos) 1024).reshape2 8 128 :=
    congrArg (·.reshape2 8 128) (cache_slice .keyCache hl hpos)
  rw [hv, hk]
  refine bind_of_ok (rmsNormFloatBf16Weights_eq F _ _ hx nofun) ?_
  have hres := Cells.holds_fill (m := m) (b := .residual) (o := 0) (n := 1024)
    (f := rmsNormed F rmsNormEps (weights.getWeightsOfLayer .inputLayernorm l) 1024 x)
  refine bind_of_ok (matrixMultiplyVectorBf16F32_of_dim_ne bf16 _ hres (Tensor.reshape2_dim_ne rfl)) ?_
  refine bind_of_ok (matrixMultiplyVectorBf16F32_of_dim_ne bf16 _ hres (Tensor.reshape2_dim_ne rfl)) ?_
  exact matrixMultiplyVectorBf16F32_eq bf16 _ hres nofun

/-! ## The heads -/

/-- A head after the first `k` rotations. -/
def rotated (pos : Nat) (x : Nat → R) : Nat → Nat → R
  | 0 => x
  | k + 1 =>
    let f := rotated pos x k
    let frequency := F.pow config.ropeTheta (-(k : R) * (2 : ℕ) / config.headDim) * pos
    Function.update (Function.update f k (f k * F.cos frequency - f (k + 64) * F.sin frequency))
      (k + 64) (f k * F.sin frequency + f (k + 64) * F.cos frequency)

/-- A head after its norm and the rotations. -/
def normalizedHead (w : Nat → UInt16) (pos : Nat) (x : Nat → R) : Nat → R :=
  rotated F pos (rmsNormed F rmsNormEps w 128 x) 64

theorem normalizeHead_eq {b : Buffer} {p : Nat} {w : Nat → UInt16} (hx : m.Holds b p 128 x) :
    normalizeHead F w pos (.vector b p 128) m =
      .ok (m.fill b p 128 (normalizedHead F w pos x)) := by
  refine bind_of_ok (rmsNormFloatBf16Weights_eq F _ _ hx fun _ => rfl) ?_
  apply forRange_eq (fun k => m.fill b p 128 (rotated F pos (rmsNormed F rmsNormEps w 128 x) k)) rfl
  intro k hk
  have hk : k < 64 := hk
  have hf := Cells.holds_fill (m := m) (b := b) (o := p) (n := 128)
    (f := rotated F pos (rmsNormed F rmsNormEps w 128 x) k)
  refine bind_of_ok (Tensor.value_vector (hf k (by omega))) ?_
  refine bind_of_ok (Tensor.value_vector (hf (k + 64) (by omega))) ?_
  refine bind_of_ok Tensor.setScalar_vector ?_
  rw [Cells.fill_update (by omega)]
  refine Tensor.setScalar_vector.trans ?_
  rw [show config.headDim / 2 = 64 from rfl, Cells.fill_update (by omega)]
  rfl

theorem normalizeHead_unwritten {b : Buffer} {p : Nat} {w : Nat → UInt16} (hm : m b p = none) :
    normalizeHead F w pos (.vector b p 128) m = .error (.unwritten b p) := by
  rw [normalizeHead, rmsNormFloatBf16Weights,
    Tensor.readSpan_unwritten (show 0 < (Tensor.vector b p 128).size by simp) hm]
  rfl

/-- The memory `m` after the norms and rotations of the first `k` heads of a buffer, which held
`x`. -/
structure Normalized (w : Nat → UInt16) (pos : Nat) (b : Buffer) (p : Nat) (x : Nat → Nat → R)
    (m : Memory R) (k : Nat) (m' : Memory R) : Prop where
  full : m'.Full
  same : ∀ b', b' ≠ b → m' b' = m b'
  heads : ∀ i < k, m'.Holds b (p + i * 128) 128 (normalizedHead F w pos (x i))
  outside : ∀ j, j < p ∨ p + k * 128 ≤ j → m' b j = m b j

/-- Heads of one buffer are normalised within it. -/
theorem normalizeHead_loop (w : Nat → UInt16) (pos : Nat) (x : Nat → Nat → R) {b : Buffer}
    {p k : Nat} {head : Nat → Tensor} (hhead : ∀ i < k, head i = .vector b (p + i * 128) 128)
    (hm : m.Full) (hx : ∀ i < k, m.Holds b (p + i * 128) 128 (x i)) :
    ∃ m', forRange k (fun i m => normalizeHead F w pos (head i) m) m = .ok m' ∧
      Normalized F w pos b p x m k m' := by
  refine forRange_ok (Normalized F w pos b p x m)
    ⟨hm, fun _ _ => rfl, fun i hi => absurd hi (Nat.not_lt_zero i), fun _ _ => rfl⟩
    fun i hi m' h => ?_
  have hx' : m'.Holds b (p + i * 128) 128 (x i) := by
    intro j hj
    rw [h.outside _ (Or.inr (by omega))]
    exact hx i hi j hj
  have hrun : normalizeHead F w pos (.vector b (p + i * 128) 128) m' = _ := normalizeHead_eq F hx'
  rw [← hhead i hi] at hrun
  refine ⟨_, hrun, h.full.fill, fun b' hb => (Cells.fill_of_ne hb).trans (h.same b' hb),
    fun j hj => ?_, fun j hj => ?_⟩
  · rcases Nat.lt_succ_iff_lt_or_eq.mp hj with hlt | rfl
    · exact (h.heads j hlt).fill_outside (by omega)
    · exact Cells.holds_fill
  · rw [Cells.fill_outside (by omega)]
    exact h.outside j (by omega)

theorem k_slice (hl : l < 28) (hpos : pos < n) (hh : h < 8) :
    ((((setupBuffers n).keyCache.slice l).slice pos).reshape2 8 128).slice h =
      .vector .keyCache (rowStart n l pos + h * 128) 128 :=
  (congrArg (fun t => (t.reshape2 8 128).slice h) (cache_slice .keyCache hl hpos)).trans
    (Tensor.slice_reshape2 rfl hh (by omega))

theorem normalizeHeads_ok (hl : l < 28) (hpos : pos < n) (hm : m.Full) :
    ∃ m', normalizeHeads F weights l pos (setupBuffers n)
        ((((setupBuffers n).keyCache.slice l).slice pos).reshape2 8 128) m = .ok m' ∧
      m'.Full ∧ ∀ b, b ≠ .q → b ≠ .keyCache → m' b = m b := by
  have hq : ∀ i < 16, (setupBuffers n).q.slice i = .vector .q (0 + i * 128) 128 := by
    intro i hi
    rw [setupBuffers_q_slice hi, Nat.zero_add]
  obtain ⟨m₁, hrun₁, h₁⟩ := normalizeHead_loop F _ pos _ hq hm fun i hi => hm.holds
  obtain ⟨m₂, hrun₂, h₂⟩ := normalizeHead_loop F _ pos _ (fun i => k_slice hl hpos) h₁.full
    fun i hi => h₁.full.holds
  exact ⟨m₂, bind_of_ok hrun₁ hrun₂, h₂.full, fun b hq hk => (h₂.same b hk).trans (h₁.same b hq)⟩

/-! ## Attention -/

/-- The score of a head at position `p`. -/
def headScore (n : Nat) (m : Memory R) (l h p : Nat) : R :=
  (∑ i ∈ Finset.range 128, m.values .q (h * 128) i *
    m.values .keyCache (rowStart n l p + h / 2 * 128) i) / F.sqrt config.headDim

theorem headScore_congr {m' : Memory R} (hq : m' .q = m .q) (hk : m' .keyCache = m .keyCache) :
    headScore F n m' l h = headScore F n m l h := by
  funext p
  simp only [headScore, values_congr hq, values_congr hk]

theorem scoreHead_eq (hl : l < 28) (hpos : pos < n) (hh : h < 16) (hm : m.Full) :
    scoreHead F l pos h (setupBuffers n) m =
      .ok (m.fill .attention (h * n) (pos + 1) (headScore F n m l h)) := by
  rw [scoreHead, setupBuffers_q_slice hh, setupBuffers_attention_slice hh (by omega)]
  apply forRange_fill
  intro p hp
  have hk : headOfRow (setupBuffers n).keyCache l p h =
      .vector .keyCache (rowStart n l p + h / 2 * 128) 128 :=
    cache_headOfRow .keyCache hl (by omega) hh
  have hq : ∀ b' o, b' ≠ .attention → (m.fill .attention (h * n) p (headScore F n m l h)).Holds b' o
      128 (m.values b' o) := fun _ _ hb => hm.holds.fill_of_ne hb
  simp only [hk, Tensor.vector_size]
  refine bind_of_ok (Tensor.readSpan_vector (hq .q (h * 128) (by decide))) ?_
  refine bind_of_ok (Tensor.readSpan_vector (hq .keyCache _ (by decide))) ?_
  rw [dotProductFloatFloatVector_range]
  rfl

variable [LinearOrder R]

/-- The weights that the softmax leaves for a head. -/
def headShare (n : Nat) (m : Memory R) (l pos h : Nat) : Nat → R :=
  share F (headScore F n m l h) (pos + 1)

theorem attendHead_eq (hl : l < 28) (hpos : pos < n) (hh : h < 16) (hm : m.Full) :
    attendHead F l pos h ⟨setupBuffers n, m⟩ = .ok ⟨setupBuffers n,
      (m.fill .attention (h * n) (pos + 1) (headShare F n m l pos h)).fill .residual (h * 128) 128
        (mixed n m l pos h (headShare F n m l pos h))⟩ := by
  have hscore := scoreHead_eq F hl hpos hh hm
  have hdata : ((setupBuffers n).attention.slice h).data = some (.attention, h * n) := by
    rw [setupBuffers_attention_slice hh (by omega)]
    rfl
  have hsoftmax : softmaxVectorFloat F (.vector .attention (h * n) (pos + 1))
      (m.fill .attention (h * n) (pos + 1) (headScore F n m l h)) =
      .ok (m.fill .attention (h * n) (pos + 1) (headShare F n m l pos h)) := by
    rw [softmaxVectorFloat_eq F Cells.holds_fill, Cells.fill_fill]
    rfl
  refine bind_of_ok hscore ?_
  rw [hdata]
  refine bind_of_ok hsoftmax ?_
  refine bind_of_ok ((congrArg (accumulateValues l pos h _ _ · _) (residual_slice hh)).trans
    (accumulateValues_eq hl hpos hh hm.fill Cells.holds_fill nofun)) ?_
  rw [mixed_congr (Cells.fill_of_ne (show Buffer.valueCache ≠ .attention from nofun)),
    residual_flatten]
  rfl

end Spheres.Qwen
