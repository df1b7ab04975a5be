import Spheres.Qwen.Tokens
import Mathlib.Analysis.SpecialFunctions.Pow.Real
import Mathlib.Analysis.SpecialFunctions.Trigonometric.Basic

/-!
# Rotated heads

The heads of `q` and `k` are rotated in 64 planes, by angles that are proportional
to their position. For a sine and a cosine that compose rotations, a score then
depends on the positions of its two heads only through their distance
(`scoreHead_relative`). The heads are those that the pass finds: the row of the key cache
is rotated once, when its own token passes, and `q` by every layer of every token.
-/

namespace Spheres.Qwen

open Library

variable {R : Type*} [Field R] (F : MathFunctions R) (weights : QwenWeights) {n l pos k h : Nat}
  {m m₀ : Memory R} {x y : Nat → R}

/-! ## Planes -/

/-- The equations of the sine and of the cosine of a difference. -/
structure MathFunctions.Rotates (F : MathFunctions R) : Prop where
  cos_sub (a b : R) : F.cos (a - b) = F.cos a * F.cos b + F.sin a * F.sin b
  sin_sub (a b : R) : F.sin (a - b) = F.sin a * F.cos b - F.cos a * F.sin b

/-- The angle of a plane for one position. -/
def frequency (i : Nat) : R := F.pow config.ropeTheta (-(i : R) * (2 : ℕ) / config.headDim)

/-- The two coordinates of a plane, before and after its rotation. -/
theorem rotated_plane (pos : Nat) (x : Nat → R) {i : Nat} (hi : i < 64) (hk : k ≤ 64) :
    rotated F pos x k i = (if i < k then
      x i * F.cos (frequency F i * pos) - x (i + 64) * F.sin (frequency F i * pos) else x i) ∧
    rotated F pos x k (i + 64) = if i < k then
      x i * F.sin (frequency F i * pos) + x (i + 64) * F.cos (frequency F i * pos)
        else x (i + 64) := by
  induction k with
  | zero => exact ⟨rfl, rfl⟩
  | succ k ih =>
    obtain ⟨hlow, hhigh⟩ := ih (by omega)
    by_cases hik : i = k
    · subst hik
      rw [if_neg (lt_irrefl i)] at hlow hhigh
      simp only [rotated, if_pos (Nat.lt_succ_self i), Function.update_self, hlow, hhigh]
      rw [Function.update_of_ne (show i ≠ i + 64 by omega), Function.update_self]
      exact ⟨rfl, rfl⟩
    · have hlt : i < k + 1 ↔ i < k := by omega
      simp only [rotated, hlt, ← hlow, ← hhigh]
      constructor
      · rw [Function.update_of_ne (by omega), Function.update_of_ne hik]
      · rw [Function.update_of_ne (by omega), Function.update_of_ne (by omega)]

/-- A sum over a head, plane by plane. -/
theorem sum_planes (f : Nat → R) :
    ∑ i ∈ Finset.range 128, f i = ∑ i ∈ Finset.range 64, (f i + f (i + 64)) := by
  rw [show 128 = 64 + 64 from rfl, Finset.sum_range_add, Finset.sum_add_distrib]
  simp only [Nat.add_comm]

/-- The product of two heads, the second of them `d` positions before the first. -/
def relativeProduct (x y : Nat → R) (d : Nat) : R :=
  ∑ i ∈ Finset.range 64,
    ((x i * y i + x (i + 64) * y (i + 64)) * F.cos (frequency F i * d) +
      (x i * y (i + 64) - x (i + 64) * y i) * F.sin (frequency F i * d))

variable {F}

/-- The product of two heads after their rotations. -/
theorem sum_rotated (hF : F.Rotates) {p : Nat} (hp : p ≤ pos) :
    ∑ i ∈ Finset.range 128, rotated F pos x 64 i * rotated F p y 64 i =
      relativeProduct F x y (pos - p) := by
  rw [sum_planes]
  apply Finset.sum_congr rfl
  intro i hi
  have hi : i < 64 := Finset.mem_range.mp hi
  obtain ⟨hx, hx'⟩ := rotated_plane F pos x hi le_rfl
  obtain ⟨hy, hy'⟩ := rotated_plane F p y hi le_rfl
  rw [if_pos hi] at hx hx' hy hy'
  rw [hx, hx', hy, hy', Nat.cast_sub hp, mul_sub (frequency F i), hF.cos_sub, hF.sin_sub]
  ring

variable (F)

/-! ## Heads -/

/-- What a head of `q` holds after the first `k` runs of a layer. -/
def queryHead (m₀ : Memory R) (h : Nat) : Nat → Nat → R
  | 0 => m₀.values .q (h * 128)
  | k + 1 =>
    normalizedHead F (weights.getWeightsOfLayer .selfAttnQNorm (k % 28)) (k / 28) (queryHead m₀ h k)

/-- What a head of `k` holds once the token of its row has passed the layer. -/
def keyHead (n : Nat) (m₀ : Memory R) (l p h : Nat) : Nat → R :=
  normalizedHead F (weights.getWeightsOfLayer .selfAttnKNorm l) p
    (m₀.values .keyCache (rowStart n l p + h * 128))

/-- The heads after the first `k` runs of a layer, from the memory `m₀`; run `pos * 28 + l` is the
one of layer `l` for the token at `pos`. -/
structure Rotating (n : Nat) (m₀ : Memory R) (k : Nat) (s : Scratch R) : Prop where
  tensors : s.tensors = setupBuffers n
  full : s.memory.Full
  q : ∀ h < 16, s.memory.Holds .q (h * 128) 128 (queryHead F weights m₀ h k)
  passed : ∀ l < 28, ∀ p < n, p * 28 + l < k → ∀ h < 8,
    s.memory.Holds .keyCache (rowStart n l p + h * 128) 128 (keyHead F weights n m₀ l p h)
  ahead : ∀ l < 28, ∀ p < n, k ≤ p * 28 + l → ∀ h < 8,
    s.memory.Holds .keyCache (rowStart n l p + h * 128) 128
      (m₀.values .keyCache (rowStart n l p + h * 128))

variable {F weights}

theorem Rotating.start (hm : m₀.Full) : Rotating F weights n m₀ 0 ⟨setupBuffers n, m₀⟩ :=
  ⟨rfl, hm, fun _ _ => hm.holds, fun _ _ _ _ h => absurd h (Nat.not_lt_zero _),
    fun _ _ _ _ _ _ _ => hm.holds⟩

/-- What is not in `q` or in the key cache does not matter. -/
theorem Rotating.congr {s : Scratch R} (hs : Rotating F weights n m₀ k s) (hm : m.Full)
    (hq : m .q = s.memory .q) (hk : m .keyCache = s.memory .keyCache) :
    Rotating F weights n m₀ k ⟨setupBuffers n, m⟩ :=
  ⟨rfl, hm, fun h hh => (hs.q h hh).congr hq,
    fun l hl p hp hlt h hh => (hs.passed l hl p hp hlt h hh).congr hk,
    fun l hl p hp hle h hh => (hs.ahead l hl p hp hle h hh).congr hk⟩

/-- The rows of other layers and positions stay. -/
theorem Normalized.row {w : Nat → UInt16} {z : Nat → Nat → R} {m' : Memory R} {l' p : Nat}
    (h : Normalized F w pos .keyCache (rowStart n l pos) z m 8 m') (hpos : pos < n) (hp : p < n)
    (hne : l ≠ l' ∨ pos ≠ p) {i : Nat} (hi : i < 8)
    (hx : m.Holds .keyCache (rowStart n l' p + i * 128) 128 x) :
    m'.Holds .keyCache (rowStart n l' p + i * 128) 128 x := by
  intro j hj
  have hrow := rowStart_disjoint hpos hp hne
  rw [h.outside _ (by omega)]
  exact hx j hj

/-- The heads of a layer run. -/
theorem Rotating.normalizeHeads {s : Scratch R}
    (hs : Rotating F weights n m₀ (pos * 28 + l) s) (hl : l < 28) (hpos : pos < n) :
    ∃ m', normalizeHeads F weights l pos (setupBuffers n)
        ((((setupBuffers n).keyCache.slice l).slice pos).reshape2 8 128) s.memory = .ok m' ∧
      Rotating F weights n m₀ (pos * 28 + l + 1) ⟨setupBuffers n, m'⟩ ∧
      ∀ b, b ≠ .q → b ≠ .keyCache → m' b = s.memory b := by
  have hslice : ∀ i < 16, (setupBuffers n).q.slice i = .vector .q (0 + i * 128) 128 := by
    intro i hi
    rw [setupBuffers_q_slice hi, Nat.zero_add]
  obtain ⟨m₁, hrun₁, h₁⟩ := normalizeHead_loop F (weights.getWeightsOfLayer .selfAttnQNorm l) pos
    (fun i => queryHead F weights m₀ i (pos * 28 + l)) hslice hs.full fun i hi => by
      rw [Nat.zero_add]
      exact hs.q i hi
  have hkey : m₁ .keyCache = s.memory .keyCache := h₁.same _ nofun
  obtain ⟨m₂, hrun₂, h₂⟩ := normalizeHead_loop F (weights.getWeightsOfLayer .selfAttnKNorm l) pos
    (fun i => m₀.values .keyCache (rowStart n l pos + i * 128)) (fun i => k_slice hl hpos) h₁.full
    fun i hi => (hs.ahead l hl pos hpos le_rfl i hi).congr hkey
  refine ⟨m₂, bind_of_ok hrun₁ hrun₂, ⟨rfl, h₂.full, fun h hh => ?_, fun l' hl' p hp hlt h hh => ?_,
    fun l' hl' p hp hle h hh => ?_⟩, fun b hb hk => (h₂.same b hk).trans (h₁.same b hb)⟩
  · have hhead := (h₁.heads h hh).congr (h₂.same .q nofun)
    rw [Nat.zero_add] at hhead
    rw [queryHead, show (pos * 28 + l) % 28 = l by omega, show (pos * 28 + l) / 28 = pos by omega]
    exact hhead
  · by_cases hrow : l = l' ∧ pos = p
    · obtain ⟨rfl, rfl⟩ := hrow
      exact h₂.heads h hh
    · exact h₂.row hpos hp (by omega) hh ((hs.passed l' hl' p hp (by omega) h hh).congr hkey)
  · exact h₂.row hpos hp (by omega) hh ((hs.ahead l' hl' p hp (by omega) h hh).congr hkey)

section Runs

variable [LinearOrder R]

theorem Rotating.layer {s : Scratch R} (hs : Rotating F weights n m₀ (pos * 28 + l) s)
    (hl : l < 28) (hpos : pos < n) :
    ∃ s', forwardLayer F weights pos l s = .ok s' ∧
      Rotating F weights n m₀ (pos * 28 + (l + 1)) s' := by
  obtain ⟨t, m⟩ := s
  obtain rfl : t = setupBuffers n := hs.tensors
  have hm : m.Full := hs.full
  have hx : m.Holds .hiddenStates 0 1024 (m.values .hiddenStates 0) := hm.holds
  have hprojected := hs.congr (m := projected F weights n l pos (m.values .hiddenStates 0) m)
    hm.fill.fill rfl rfl
  obtain ⟨m₂, hheads, hs₂, hsame⟩ := hprojected.normalizeHeads hl hpos
  obtain ⟨m', hrun, hfull, hq, hk, -, -⟩ := forwardLayer_ok F weights hl hpos hx hheads hs₂.full
    hsame fun j _ => rfl
  exact ⟨_, hrun, hs₂.congr hfull hq hk⟩

/-- The first layers of a token. -/
theorem Rotating.layers {s : Scratch R} (hs : Rotating F weights n m₀ (pos * 28) s) (hpos : pos < n)
    (tokenId : Int) (hk : k ≤ 28) :
    ∃ m s', convertBf16ToFloat (weights.getEmbeddingOfToken tokenId) embeddingDim
        s.tensors.hiddenStates s.memory = .ok m ∧
      forRange k (forwardLayer F weights pos) ⟨s.tensors, m⟩ = .ok s' ∧
      Rotating F weights n m₀ (pos * 28 + k) s' := by
  obtain ⟨t, m⟩ := s
  obtain rfl : t = setupBuffers n := hs.tensors
  have hm : m.Full := hs.full
  obtain ⟨x, hconvert⟩ : ∃ x, convertBf16ToFloat (weights.getEmbeddingOfToken tokenId) embeddingDim
      (setupBuffers n).hiddenStates m = .ok (m.fill .hiddenStates 0 1024 x) :=
    ⟨_, forRange_fill fun i hi => rfl⟩
  have hstart : Rotating F weights n m₀ (pos * 28 + 0)
      ⟨setupBuffers n, m.fill .hiddenStates 0 1024 x⟩ := hs.congr hm.fill rfl rfl
  obtain ⟨s', hrun, hs'⟩ := forRange_ok (n := k)
    (fun l => Rotating F weights n m₀ (pos * 28 + l)) hstart
    fun i hi s hs => hs.layer (l := i) (by omega) hpos
  exact ⟨_, s', hconvert, hrun, hs'⟩

theorem Rotating.token {s : Scratch R} (hs : Rotating F weights n m₀ (pos * 28) s) (hpos : pos < n)
    (tokenId : Int) : ∃ s', forwardToken F weights s (tokenId, pos) = .ok s' ∧
      Rotating F weights n m₀ ((pos + 1) * 28) s' := by
  obtain ⟨m, ⟨t, m'⟩, hconvert, hrun, hs'⟩ := hs.layers hpos tokenId le_rfl
  obtain rfl : t = setupBuffers n := hs'.tensors
  have hm' : m'.Full := hs'.full
  have hx : m'.Holds .hiddenStates 0 1024 (m'.values .hiddenStates 0) := hm'.holds
  refine ⟨_, bind_of_ok hconvert (bind_of_ok hrun (bind_of_ok
    (rmsNormFloatBf16Weights_eq F _ _ hx fun _ => rfl) rfl)), ?_⟩
  rw [show (pos + 1) * 28 = pos * 28 + 28 by omega]
  exact hs'.congr hm'.fill rfl rfl

theorem Rotating.tokens {s : Scratch R} (hs : Rotating F weights n m₀ (pos * 28) s)
    (tokenIds : List Int) (hlength : pos + tokenIds.length ≤ n) :
    ∃ s', (tokenIds.zipIdx pos).foldlM (forwardToken F weights) s = .ok s' ∧
      Rotating F weights n m₀ ((pos + tokenIds.length) * 28) s' := by
  induction tokenIds generalizing pos s with
  | nil => exact ⟨s, rfl, hs⟩
  | cons tokenId tokenIds ih =>
    rw [List.length_cons] at hlength
    obtain ⟨s₁, hrun, hs₁⟩ := hs.token (by omega) tokenId
    obtain ⟨s', hrun', hs'⟩ := ih hs₁ (by omega)
    refine ⟨s', ?_, ?_⟩
    · rw [List.zipIdx_cons, List.foldlM_cons]
      exact bind_of_ok hrun hrun'
    · rw [List.length_cons, Nat.add_comm tokenIds.length, ← Nat.add_assoc]
      exact hs'

/-! ## Scores -/

variable (F weights)

/-- The pass up to the scores of head `h` in layer `l`, for the token at `pos`. -/
def beforeScores (tokenIds : List Int) (pos l h : Nat) (m : Memory R) :
    Except Fault (Scratch R) := do
  let s ← (tokenIds.take pos).zipIdx.foldlM (forwardToken F weights)
    { tensors := setupBuffers tokenIds.length, memory := m }
  let m ← convertBf16ToFloat (weights.getEmbeddingOfToken (tokenIds.getD pos 0)) embeddingDim
    s.tensors.hiddenStates s.memory
  let s ← forRange l (forwardLayer F weights pos) { tensors := s.tensors, memory := m }
  let k := ((s.tensors.keyCache.slice l).slice pos).reshape2
    config.numKeyValueHeads config.headDim
  let v := (s.tensors.valueCache.slice l).slice pos
  let m ← projectAttention F weights l s.tensors k v s.memory
  let m ← normalizeHeads F weights l pos s.tensors k m
  forRange h (attendHead F l pos) { tensors := s.tensors, memory := m }

/-- The pass goes on from there with the scores, as the first part of `attendHead`. -/
theorem calculateQwenEmbedding_at {encode : List UInt8 → List Int} {query : List UInt8}
    (hpos : pos < (encode query).length) (hl : l < 28) (hh : h < 16) :
    ∃ rest : Scratch R → Except Fault (List R), ∀ m,
      calculateQwenEmbedding F weights encode query m =
        beforeScores F weights (encode query) pos l h m >>= fun s =>
          attendHead F l pos h s >>= rest := by
  obtain ⟨restHeads, hHeads⟩ := forRange_at hh (attendHead F l pos)
  obtain ⟨restLayers, hLayers⟩ := forRange_at hl (forwardLayer F weights pos)
  have hTokens : (encode query).zipIdx = ((encode query).take pos).zipIdx ++
      ((encode query).getD pos 0, pos) :: ((encode query).drop (pos + 1)).zipIdx (pos + 1) := by
    conv_lhs => rw [← List.take_append_drop pos (encode query)]
    rw [List.zipIdx_append, List.drop_eq_getElem_cons hpos, List.zipIdx_cons,
      List.length_take_of_le hpos.le, List.getD_eq_getElem _ _ hpos, Nat.zero_add]
  refine ⟨fun s => do
    let s ← restHeads s
    let m ← projectOutput weights l s.tensors s.memory
    let m ← mlp F weights l s.tensors m
    let s ← restLayers ⟨s.tensors, m⟩
    let m ← rmsNormFloatBf16Weights F s.tensors.hiddenStates weights.getNormWeights
      s.tensors.hiddenStates rmsNormEps s.memory
    let s ← (((encode query).drop (pos + 1)).zipIdx (pos + 1)).foldlM (forwardToken F weights)
      ⟨s.tensors, m⟩
    s.tensors.hiddenStates.readSpan s.memory config.hiddenSize, fun m => ?_⟩
  have hH : ∀ s, forRange config.numAttentionHeads (attendHead F l pos) s = _ := hHeads
  have hL : ∀ s, forRange config.numHiddenLayers (forwardLayer F weights pos) s = _ := hLayers
  simp only [calculateQwenEmbedding, hTokens, List.foldlM_append, List.foldlM_cons, beforeScores,
    forwardToken, hL, forwardLayer, hH, bind_assoc, pure_bind]

/-- Before a score the heads of its layer have been rotated. -/
theorem beforeScores_rotating (c : Buffer → Nat → R) {tokenIds : List Int}
    (hpos : pos < tokenIds.length) (hl : l < 28) (hh : h ≤ 16) :
    ∃ s, beforeScores F weights tokenIds pos l h (.ofContents c) = .ok s ∧
      Rotating F weights tokenIds.length (.ofContents c) (pos * 28 + l + 1) s := by
  have hstart : Rotating F weights tokenIds.length (.ofContents c) (0 * 28) ⟨_, .ofContents c⟩ :=
    Rotating.start fun b i => ⟨c b i, rfl⟩
  have htake : (tokenIds.take pos).length = pos := List.length_take_of_le hpos.le
  obtain ⟨s₁, hrun₁, hs₁⟩ := hstart.tokens (tokenIds.take pos) (by omega)
  rw [htake, Nat.zero_add] at hs₁
  obtain ⟨m, ⟨t, m₂⟩, hconvert, hrun₂, hs₂⟩ :=
    hs₁.layers hpos (tokenIds.getD pos 0) hl.le
  obtain rfl : t = setupBuffers tokenIds.length := hs₂.tensors
  have hm₂ : m₂.Full := hs₂.full
  have hprojected := hs₂.congr
    (m := projected F weights tokenIds.length l pos (m₂.values .hiddenStates 0) m₂)
    hm₂.fill.fill rfl rfl
  obtain ⟨m₃, hheads, hs₃, -⟩ := hprojected.normalizeHeads hl hpos
  obtain ⟨m₄, hrun₄, hfull, hsame, -⟩ := attendHeads_ok F hl hpos hh hs₃.full
  refine ⟨_, bind_of_ok hrun₁ (bind_of_ok hconvert (bind_of_ok hrun₂ (bind_of_ok
    (projectAttention_eq F weights hl hpos hm₂.holds) (bind_of_ok hheads hrun₄)))), ?_⟩
  exact hs₃.congr hfull (hsame .q nofun nofun) (hsame .keyCache nofun nofun)

variable {F weights} {c : Buffer → Nat → R} {tokenIds : List Int}

/-- The score of a head at the positions up to its own. The vectors are those that were found
in the layer, after the norm; of the positions only the distance is left. -/
theorem scoreHead_relative (hF : F.Rotates) (hpos : pos < tokenIds.length) (hl : l < 28)
    (hh : h < 16) :
    ∃ s m, beforeScores F weights tokenIds pos l h (.ofContents c) = .ok s ∧
      scoreHead F l pos h s.tensors s.memory = .ok m ∧
      ∀ p ≤ pos, m .attention (h * tokenIds.length + p) = some (relativeProduct F
        (rmsNormed F rmsNormEps (weights.getWeightsOfLayer .selfAttnQNorm l) 128
          (queryHead F weights (.ofContents c) h (pos * 28 + l)))
        (rmsNormed F rmsNormEps (weights.getWeightsOfLayer .selfAttnKNorm l) 128 fun i =>
          c .keyCache (rowStart tokenIds.length l p + h / 2 * 128 + i)) (pos - p) /
        F.sqrt config.headDim) := by
  obtain ⟨⟨t, m⟩, hrun, hs⟩ := beforeScores_rotating F weights c hpos hl hh.le
  obtain rfl : t = setupBuffers tokenIds.length := hs.tensors
  have hm : m.Full := hs.full
  refine ⟨_, _, hrun, scoreHead_eq F hl hpos hh hm, fun p hp => ?_⟩
  refine (Cells.fill_inside (show p < pos + 1 by omega)).trans (congrArg some ?_)
  have hq := hs.q h hh
  rw [queryHead, show (pos * 28 + l) % 28 = l by omega,
    show (pos * 28 + l) / 28 = pos by omega] at hq
  have hk := hs.passed l hl p (by omega) (by omega) (h / 2) (by omega)
  rw [headScore]
  refine congrArg (· / F.sqrt config.headDim) (Eq.trans ?_ (sum_rotated hF hp))
  apply Finset.sum_congr rfl
  intro i hi
  have hi : i < 128 := Finset.mem_range.mp hi
  rw [Cells.values, hq i hi, Cells.values, hk i hi]
  rfl

end Runs

/-- The functions of the real numbers. -/
noncomputable def realFunctions : MathFunctions ℝ where
  exp := Real.exp
  sqrt := Real.sqrt
  pow := (· ^ ·)
  sin := Real.sin
  cos := Real.cos

theorem realFunctions_rotates : realFunctions.Rotates := ⟨Real.cos_sub, Real.sin_sub⟩

/-- All numbers of a weight file, and all that `malloc` left, are 1. -/
theorem scoreHead_relative_ones :
    ∃ s m, beforeScores realFunctions ⟨fun _ _ => 0x3F80, fun _ => 0x3F80, fun _ _ _ => 0x3F80⟩
        [1, 2, 3] 2 27 5 (.ofContents fun _ _ => 1) = .ok s ∧
      scoreHead realFunctions 27 2 5 s.tensors s.memory = .ok m ∧
      ∀ p ≤ 2, m .attention (5 * 3 + p) = some (relativeProduct realFunctions
        (rmsNormed realFunctions rmsNormEps (fun _ => 0x3F80) 128 (queryHead realFunctions
          ⟨fun _ _ => 0x3F80, fun _ => 0x3F80, fun _ _ _ => 0x3F80⟩ (.ofContents fun _ _ => 1) 5
          (2 * 28 + 27)))
        (rmsNormed realFunctions rmsNormEps (fun _ => 0x3F80) 128 fun _ => 1) (2 - p) /
        realFunctions.sqrt config.headDim) :=
  scoreHead_relative realFunctions_rotates (by decide) (by decide) (by decide)

end Spheres.Qwen
