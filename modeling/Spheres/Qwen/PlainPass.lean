import Spheres.Qwen.LayerRun

/-!
# A pass that shows the shares

For the weights `unitWeights` and the functions `plainFunctions` the norms and
rotations do nothing, and the only products that are not zero are those of one
cell in layer 0. What the first cell of the embedding adds to the token is then
the mixture of two values by the shares of the first head, and the shares are
those of the scores that `malloc` left (`embedding_unitWeights`).
-/

namespace Spheres.Qwen

open Library

variable {R : Type*} [Field R] {n l pos k : Nat} {m : Memory R} {x r : Nat → R} {E : R}
  {χ : Int → Bool}

section Functions

variable [LinearOrder R]

/-- The exponential takes two values; the other functions are constant. -/
def plainFunctions (E : R) : MathFunctions R where
  exp x := if x < 0 then E else 1
  sqrt _ := 1
  pow _ _ := 0
  sin _ := 0
  cos _ := 1

end Functions

/-- The embedding of a token is 1 in cell 0 for those of `χ`, the first value and the
first output of layer 0 are copied, and all other weights are 0. -/
def unitWeights (χ : Int → Bool) : QwenWeights where
  getEmbeddingOfToken tokenId i := if χ tokenId ∧ i = 0 then 0x3F80 else 0
  getNormWeights _ := 0
  getWeightsOfLayer name l i :=
    if (name = .selfAttnVProj ∨ name = .selfAttnOProj) ∧ l = 0 ∧ i = 0 then 0x3F80 else 0

section Plain

variable [LinearOrder R] [IsStrictOrderedRing R]

theorem rmsNormed_plain {w : Nat → UInt16} {i : Nat} (hw : w i = 0) :
    rmsNormed (plainFunctions E) rmsNormEps w n x i = x i := by
  rw [rmsNormed, hw, bf16_zero]
  show (1 + 0) * (1 / (1 : R)) * x i = x i
  ring

theorem unitWeights_layer (name : LayerWeight)
    (hname : name ≠ .selfAttnVProj ∧ name ≠ .selfAttnOProj)
    (i : Nat) : (unitWeights χ).getWeightsOfLayer name l i = 0 :=
  if_neg fun h => h.1.elim hname.1 hname.2

theorem unitWeights_later (name : LayerWeight) (hl : l ≠ 0) (i : Nat) :
    (unitWeights χ).getWeightsOfLayer name l i = 0 :=
  if_neg fun h => hl h.2.1

omit [IsStrictOrderedRing R] in
theorem rotated_plain : rotated (plainFunctions E) pos x k = x := by
  induction k with
  | zero => rfl
  | succ k ih =>
    rw [rotated, ih]
    show Function.update (Function.update x k (x k * 1 - x (k + 64) * 0)) (k + 64)
      (x k * 0 + x (k + 64) * 1) = x
    rw [mul_one, mul_zero, sub_zero, mul_zero, zero_add, mul_one, Function.update_eq_self,
      Function.update_eq_self]

theorem normalizedHead_plain {w : Nat → UInt16} (hw : ∀ i, w i = 0) :
    normalizedHead (plainFunctions E) w pos x = x := by
  rw [normalizedHead, rotated_plain]
  funext i
  exact rmsNormed_plain (hw i)

/-- The heads stay as they are. -/
theorem normalizeHeads_plain (hl : l < 28) (hpos : pos < n) (hm : m.Full) :
    normalizeHeads (plainFunctions E) (unitWeights χ) l pos (setupBuffers n)
      ((((setupBuffers n).keyCache.slice l).slice pos).reshape2 8 128) m = .ok m := by
  have hhead : ∀ b p w, (∀ i, w i = 0) →
      normalizeHead (plainFunctions E) w pos (.vector b p 128) m = .ok m := by
    intro b p w hw
    have hx : m.Holds b p 128 (m.values b p) := hm.holds
    rw [normalizeHead_eq _ hx, normalizedHead_plain hw, Cells.fill_self hx]
  have hq : ∀ i, (unitWeights χ).getWeightsOfLayer .selfAttnQNorm l i = 0 :=
    unitWeights_layer .selfAttnQNorm ⟨nofun, nofun⟩
  have hk : ∀ i, (unitWeights χ).getWeightsOfLayer .selfAttnKNorm l i = 0 :=
    unitWeights_layer .selfAttnKNorm ⟨nofun, nofun⟩
  refine bind_of_ok (forRange_eq (n := 16) (fun _ => m) rfl fun i hi => ?_)
    (forRange_eq (n := 8) (fun _ => m) rfl fun i hi => ?_)
  · rw [setupBuffers_q_slice hi]
    exact hhead .q _ _ hq
  · rw [k_slice hl hpos hi]
    exact hhead .keyCache _ _ hk

theorem valueRow_plain {i : Nat} :
    valueRow (plainFunctions E) (unitWeights χ) l x i = if l = 0 ∧ i = 0 then x 0 else 0 := by
  have hnorm : rmsNormed (plainFunctions E) rmsNormEps
      ((unitWeights χ).getWeightsOfLayer .inputLayernorm l) 1024 x = x := by
    funext j
    exact rmsNormed_plain (unitWeights_layer .inputLayernorm ⟨nofun, nofun⟩ j)
  rw [valueRow, hnorm]
  split
  · rename_i h
    apply innerProduct_single (k := 0) (by omega)
    · rw [h.1, h.2]
      rfl
    · intro j hj hne
      exact if_neg fun hj0 => hne (by omega)
  · rename_i h
    apply innerProduct_zero
    intro j hj
    exact if_neg fun hj0 => h ⟨hj0.2.1, by omega⟩

theorem layerOutput_plain :
    layerOutput (plainFunctions E) (unitWeights χ) l x r 0 = x 0 + if l = 0 then r 0 else 0 := by
  have hdown : mlpDown (plainFunctions E) (unitWeights χ) l
      (afterAttention (unitWeights χ) l x r) 0 = 0 :=
    innerProduct_zero fun j _ => unitWeights_layer .mlpDownProj ⟨nofun, nofun⟩ _
  rw [layerOutput, mlpOutput, hdown, add_zero, afterAttention, productInPlace_row bf16 (by omega)]
  refine congrArg (x 0 + ·) ?_
  show innerProduct bf16 (fun j => (unitWeights χ).getWeightsOfLayer .selfAttnOProj l (0 * 2048 + j)) 2048
    r = _
  split
  · rename_i hl
    subst hl
    apply innerProduct_single (k := 0) (by omega) rfl
    intro j hj hne
    exact if_neg fun hj0 => hne (by omega)
  · rename_i hl
    exact innerProduct_zero fun j _ => unitWeights_later _ hl _

theorem rowStart_zero : rowStart n 0 0 = 0 := by
  rw [rowStart, Nat.zero_mul, Nat.zero_mul]

/-! ## Scores from the memory -/

/-- The first cell of `q` is 1 and that of the key cache `z`; the other ones are 0. -/
def scoreContents (z : R) (b : Buffer) (i : Nat) : R :=
  if i = 0 then
    match b with
    | .q => 1
    | .keyCache => z
    | _ => 0
  else 0

/-- The scores of the first head in layer 0. -/
def firstScore (z : R) (p : Nat) : R := if p = 0 then z else 0

/-- The two caches that no projection writes. -/
structure ScoresHeld (z : R) (m : Memory R) : Prop where
  full : m.Full
  q : m .q = Memory.ofContents (scoreContents z) .q
  keyCache : m .keyCache = Memory.ofContents (scoreContents z) .keyCache

omit [LinearOrder R] [IsStrictOrderedRing R] in
theorem headScore_plain {z : R} [LinearOrder R] (h : ScoresHeld z m) :
    headScore (plainFunctions E) n m 0 0 = firstScore z := by
  funext p
  have hterm : ∀ i, m.values .q (0 * 128) i * m.values .keyCache (rowStart n 0 p + 0 / 2 * 128) i =
      scoreContents z .q i * scoreContents z .keyCache (p * 1024 + i) := by
    intro i
    rw [Cells.values, Cells.values, h.q, h.keyCache, rowStart]
    simp [Memory.ofContents]
  rw [headScore, Finset.sum_congr rfl fun i _ => hterm i,
    Finset.sum_eq_single_of_mem 0 (Finset.mem_range.mpr (by omega)) fun i _ hi => by
      rw [scoreContents, if_neg hi, zero_mul]]
  show 1 * (if p * 1024 + 0 = 0 then z else 0) / 1 = _
  rw [one_mul, div_one, firstScore]
  exact if_congr (by omega) rfl rfl

/-- The mixture of the value `v` of position 0 and the value `y` of the position. -/
def mixture (E z : R) (pos : Nat) (v y : R) : R :=
  v * share (plainFunctions E) (firstScore z) (pos + 1) 0 +
    ∑ p ∈ Finset.range pos, y * share (plainFunctions E) (firstScore z) (pos + 1) (p + 1)

theorem mixedRow_plain {z v : R} (h : ScoresHeld z m)
    (hv : if pos = 0 then v = x 0 else m .valueCache 0 = some v) :
    mixedRow (plainFunctions E) n (projected (plainFunctions E) (unitWeights χ) n 0 pos x m) 0 pos 0 =
      mixture E z pos v (x 0) := by
  have hscores : ScoresHeld z (projected (plainFunctions E) (unitWeights χ) n 0 pos x m) :=
    ⟨h.full.fill.fill, h.q, h.keyCache⟩
  have hpos : headValue n (projected (plainFunctions E) (unitWeights χ) n 0 pos x m) 0 0 pos 0 =
      x 0 := by
    have hcell : projected (plainFunctions E) (unitWeights χ) n 0 pos x m .valueCache
        (rowStart n 0 pos + 0) = some (valueRow (plainFunctions E) (unitWeights χ) 0 x 0) :=
      Cells.fill_inside (show 0 < 1024 by omega)
    rw [valueRow_plain, if_pos ⟨rfl, rfl⟩] at hcell
    exact congrArg (Option.getD · 0) hcell
  have hzero : headValue n (projected (plainFunctions E) (unitWeights χ) n 0 pos x m) 0 0 0 0 =
      v := by
    by_cases hp : pos = 0
    · subst hp
      exact hpos.trans hv.symm
    · rw [if_neg hp] at hv
      have hcell : projected (plainFunctions E) (unitWeights χ) n 0 pos x m .valueCache
          (rowStart n 0 0 + 0) = m .valueCache (rowStart n 0 0 + 0) :=
        Cells.fill_outside (Or.inl (by unfold rowStart; omega))
      rw [rowStart_zero, hv] at hcell
      rw [headValue, Cells.values, rowStart_zero]
      rw [hcell]
      rfl
  show headValue n _ 0 0 0 0 * headShare (plainFunctions E) n _ 0 pos 0 0 +
    ∑ p ∈ Finset.range pos, headValue n _ 0 0 pos 0 * headShare (plainFunctions E) n _ 0 pos 0 (p + 1)
    = _
  rw [hzero, hpos, headShare, headScore_plain hscores]
  rfl

/-! ## The pass -/

/-- The state of the pass of a token before layer `k`; `v` is the first cell of the
value cache and `y` that of the token. -/
structure PlainLayers (n : Nat) (E z v y : R) (pos k : Nat) (s : Scratch R) : Prop where
  tensors : s.tensors = setupBuffers n
  scores : ScoresHeld z s.memory
  value : pos ≠ 0 ∨ 0 < k → s.memory .valueCache 0 = some v
  hidden : s.memory .hiddenStates 0 = some (y + if k = 0 then 0 else mixture E z pos v y)

theorem PlainLayers.layer {z v y : R} {s : Scratch R} (h : PlainLayers n E z v y pos k s)
    (hk : k < 28) (hpos : pos < n) (hv : pos = 0 → v = y) :
    ∃ s', forwardLayer (plainFunctions E) (unitWeights χ) pos k s = .ok s' ∧
      PlainLayers n E z v y pos (k + 1) s' := by
  obtain ⟨t, m⟩ := s
  obtain ⟨rfl, hscores, hvalue, hhidden⟩ := h
  simp only at hscores hvalue hhidden
  obtain ⟨x, hx⟩ : ∃ x, m.Holds .hiddenStates 0 1024 x := ⟨_, hscores.full.holds⟩
  have hx0 : x 0 = y + if k = 0 then 0 else mixture E z pos v y :=
    Option.some.inj ((hx 0 (by omega)).symm.trans hhidden)
  have hfull : (projected (plainFunctions E) (unitWeights χ) n k pos x m).Full :=
    hscores.full.fill.fill
  obtain ⟨m', hrun, hfull', hq, hkey, hcache, hx'⟩ := forwardLayer_ok (plainFunctions E)
    (unitWeights χ) hk hpos hx (normalizeHeads_plain hk hpos hfull) hfull (fun _ _ _ => rfl)
    fun j _ => rfl
  have hcell : m' .hiddenStates 0 = some _ := hx' 0 (by omega)
  refine ⟨_, hrun, rfl, ⟨hfull', hq.trans hscores.q, hkey.trans hscores.keyCache⟩, fun _ => ?_,
    hcell.trans (congrArg some ?_)⟩
  · by_cases hfirst : pos ≠ 0 ∨ 0 < k
    · have hrow : 0 < rowStart n k pos := by
        have := hfirst.imp_right fun h => Nat.mul_pos h (Nat.zero_lt_of_lt hpos)
        unfold rowStart
        omega
      exact (congrFun hcache 0).trans ((Cells.fill_outside (Or.inl hrow)).trans (hvalue hfirst))
    · obtain ⟨rfl, rfl⟩ : pos = 0 ∧ k = 0 := by omega
      have hwritten : m.fill .valueCache (rowStart n 0 0) 1024
          (valueRow (plainFunctions E) (unitWeights χ) 0 x) .valueCache (rowStart n 0 0 + 0) = _ :=
        Cells.fill_inside (show 0 < 1024 by omega)
      rw [if_pos rfl, add_zero] at hx0
      rw [valueRow_plain, if_pos ⟨rfl, rfl⟩, hx0, ← hv rfl, rowStart_zero] at hwritten
      rw [rowStart_zero] at hcache
      exact (congrFun hcache 0).trans hwritten
  · rw [layerOutput_plain, if_neg (Nat.succ_ne_zero k)]
    by_cases hk0 : k = 0
    · subst hk0
      rw [if_pos rfl, add_zero] at hx0
      rw [if_pos rfl, mixedRow_plain hscores, hx0]
      split
      · exact (hv ‹_›).trans hx0.symm
      · exact hvalue (Or.inl ‹_›)
    · rw [if_neg hk0, hx0, if_neg hk0, add_zero]

/-- The first cell of the embedding of a token. -/
def tokenCell (χ : Int → Bool) (tokenId : Int) : R := if χ tokenId then 1 else 0

theorem forwardToken_plain {z v : R} (tokenId : Int) (h : ScoresHeld z m) (hpos : pos < n)
    (hv : if pos = 0 then v = tokenCell χ tokenId else m .valueCache 0 = some v) :
    ∃ m', forwardToken (plainFunctions E) (unitWeights χ) ⟨setupBuffers n, m⟩ (tokenId, pos) =
        .ok ⟨setupBuffers n, m'⟩ ∧ ScoresHeld z m' ∧ m' .valueCache 0 = some v ∧
      ∃ x, m'.Holds .hiddenStates 0 1024 x ∧
        x 0 = tokenCell χ tokenId + mixture E z pos v (tokenCell χ tokenId) := by
  have hconvert : convertBf16ToFloat ((unitWeights χ).getEmbeddingOfToken tokenId) embeddingDim
      (setupBuffers n).hiddenStates m = .ok (m.fill .hiddenStates 0 1024 fun i =>
        bf16 ((unitWeights χ).getEmbeddingOfToken tokenId i)) := forRange_fill fun i hi => rfl
  have hcell : (bf16 ((unitWeights χ).getEmbeddingOfToken tokenId 0) : R) =
      tokenCell χ tokenId := by
    rw [tokenCell]
    cases hχ : χ tokenId <;> simp [unitWeights, hχ]
  have hscores : ScoresHeld z (m.fill .hiddenStates 0 1024 fun i =>
      bf16 ((unitWeights χ).getEmbeddingOfToken tokenId i)) := ⟨h.full.fill, h.q, h.keyCache⟩
  have hstart : PlainLayers n E z v (tokenCell χ tokenId) pos 0 ⟨setupBuffers n,
      m.fill .hiddenStates 0 1024 fun i =>
        bf16 ((unitWeights χ).getEmbeddingOfToken tokenId i)⟩ := by
    refine ⟨rfl, hscores, fun hp => ?_, ?_⟩
    · rw [if_neg (hp.resolve_right (lt_irrefl 0))] at hv
      exact hv
    · have hwritten : m.fill .hiddenStates 0 1024 (fun i =>
          bf16 ((unitWeights χ).getEmbeddingOfToken tokenId i)) .hiddenStates (0 + 0) = _ :=
        Cells.fill_inside (show 0 < 1024 by omega)
      rw [if_pos rfl, add_zero, ← hcell]
      exact hwritten
  have hfirst : pos = 0 → v = tokenCell χ tokenId := fun hp => by
    rw [if_pos hp] at hv
    exact hv
  obtain ⟨⟨t, m'⟩, hrun, rfl, hscores', hvalue, hhidden⟩ := forRange_ok
    (PlainLayers n E z v (tokenCell χ tokenId) pos) hstart
    fun k hk s hs => hs.layer (χ := χ) hk hpos hfirst
  simp only at hscores' hvalue hhidden
  obtain ⟨x, hx⟩ : ∃ x, m'.Holds .hiddenStates 0 1024 x := ⟨_, hscores'.full.holds⟩
  have hx0 : x 0 = _ := Option.some.inj ((hx 0 (by omega)).symm.trans hhidden)
  refine ⟨_, bind_of_ok hconvert (bind_of_ok hrun (bind_of_ok
    (rmsNormFloatBf16Weights_eq _ _ _ hx fun _ => rfl) rfl)),
    ⟨hscores'.full.fill, hscores'.q, hscores'.keyCache⟩, hvalue (Or.inr (Nat.succ_pos 27)), _,
    Cells.holds_fill, ?_⟩
  rw [rmsNormed_plain rfl, hx0, if_neg (Nat.succ_ne_zero 27)]

theorem forwardTokens_plain {z v : R} {tokens : List (Int × Nat)} (h : ScoresHeld z m)
    (hv : m .valueCache 0 = some v) (hpos : ∀ t ∈ tokens, t.2 < n ∧ t.2 ≠ 0) :
    ∃ m', tokens.foldlM (forwardToken (plainFunctions E) (unitWeights χ)) ⟨setupBuffers n, m⟩ =
        .ok ⟨setupBuffers n, m'⟩ ∧ ScoresHeld z m' ∧ m' .valueCache 0 = some v := by
  induction tokens generalizing m with
  | nil => exact ⟨m, rfl, h, hv⟩
  | cons t tokens ih =>
    obtain ⟨hlt, hne⟩ := hpos t List.mem_cons_self
    obtain ⟨m₁, hrun, h₁, hv₁, -⟩ := forwardToken_plain (E := E) (χ := χ) t.1 h hlt
      (by rw [if_neg hne]; exact hv)
    obtain ⟨m', hrun', h', hv'⟩ := ih h₁ hv₁ fun t ht => hpos t (List.mem_cons_of_mem _ ht)
    refine ⟨m', ?_, h', hv'⟩
    rw [List.foldlM_cons]
    exact bind_of_ok hrun hrun'

/-- What the first cell of the embedding is. -/
theorem embedding_unitWeights (z : R) {encode : List UInt8 → List Int} {query : List UInt8}
    {first last : Int} {between : List Int} (htokens : encode query = first :: (between ++ [last])) :
    ∃ x : Nat → R, calculateQwenEmbedding (plainFunctions E) (unitWeights χ) encode query
        (Memory.ofContents (scoreContents z)) = .ok ((List.range 1024).map x) ∧
      x 0 = tokenCell χ last +
        mixture E z (between.length + 1) (tokenCell χ first) (tokenCell χ last) := by
  have hlength : (encode query).length = between.length + 2 := by
    rw [htokens, List.length_cons, List.length_append, List.length_singleton]
  have hstart : ScoresHeld z (Memory.ofContents (scoreContents z)) :=
    ⟨fun b i => ⟨_, rfl⟩, rfl, rfl⟩
  obtain ⟨m₁, hrun₁, h₁, hv₁, -⟩ := forwardToken_plain (E := E) (χ := χ) (n := between.length + 2)
    first hstart (Nat.succ_pos _) (by rw [if_pos rfl])
  have hbetween : ∀ t ∈ between.zipIdx 1, t.2 < between.length + 2 ∧ t.2 ≠ 0 := by
    intro t ht
    have := List.mem_zipIdx ht
    omega
  obtain ⟨m₂, hrun₂, h₂, hv₂⟩ := forwardTokens_plain (E := E) (χ := χ) h₁ hv₁ hbetween
  obtain ⟨m₃, hrun₃, -, -, x, hx, hx0⟩ := forwardToken_plain (E := E) (χ := χ) last h₂
    (show between.length + 1 < between.length + 2 by omega)
    (by rw [if_neg (Nat.succ_ne_zero _)]; exact hv₂)
  refine ⟨x, embedding_of_hidden (plainFunctions E) (unitWeights χ) hlength ?_ hx, hx0⟩
  rw [htokens, List.zipIdx_cons, List.zipIdx_append, List.foldlM_cons]
  refine bind_of_ok hrun₁ ?_
  rw [List.foldlM_append]
  refine bind_of_ok hrun₂ ?_
  rw [Nat.zero_add, Nat.add_comm 1, List.zipIdx_cons, List.zipIdx_nil, foldlM_one]
  exact hrun₃

/-! ## The value of the mixture -/

omit [IsStrictOrderedRing R] in
/-- The shares of the first score and of those that are 0. -/
theorem mixture_eq {z v y : R} (hz : z ≤ 0) (hpos : 0 < pos) :
    mixture E z pos v y = (v * (plainFunctions E).exp z + pos * y) /
      ((plainFunctions E).exp z + pos) := by
  have hmax : runningMax (firstScore z) (pos + 1) = (0 : R) := by
    refine runningMax_eq (k := 1) (by omega) rfl fun j _ => ?_
    unfold firstScore
    split
    · exact hz
    · exact le_rfl
  have hfirst : shifted (plainFunctions E) (firstScore z) (pos + 1) 0 =
      (plainFunctions E).exp z := by
    rw [shifted, hmax, WithBot.unbotD_coe, sub_zero]
    rfl
  have hlater : ∀ p, shifted (plainFunctions E) (firstScore z) (pos + 1) (p + 1) = 1 := by
    intro p
    rw [shifted, hmax, WithBot.unbotD_coe, sub_zero]
    exact if_neg (lt_irrefl 0)
  have hsum : ∑ j ∈ Finset.range (pos + 1), shifted (plainFunctions E) (firstScore z) (pos + 1) j =
      (plainFunctions E).exp z + pos := by
    rw [Finset.sum_range_succ', hfirst, Finset.sum_congr rfl fun p _ => hlater p, Finset.sum_const,
      Finset.card_range, nsmul_one, add_comm]
  simp only [mixture, share, hsum, hfirst, hlater]
  rw [Finset.sum_const, Finset.card_range, nsmul_eq_mul]
  ring

end Plain

end Spheres.Qwen
