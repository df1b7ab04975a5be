import Spheres.Library.TwoRuns
import Spheres.Qwen.Uninitialised

/-!
# What the embedding depends on

A head mixes the rows of position 0 and of its own position, with shares of scores
that come from what `malloc` left in `q` and the key cache. So the tokens between
the first and the last one do not matter, nor do the projections to `q` and `k` or
what the other buffers held: two passes that agree on the rest return the same
embedding.
-/

namespace Spheres.Qwen

open Library

variable {R : Type*} [Field R] (F : MathFunctions R) {weights weights' : QwenWeights}
  {n l pos k : Nat}

/-! ## Weights -/

/-- Weight files that differ in the projections to `q` and `k` only. -/
structure QwenWeights.SameValues (w w' : QwenWeights) : Prop where
  embedding : w'.getEmbeddingOfToken = w.getEmbeddingOfToken
  norm : w'.getNormWeights = w.getNormWeights
  layer : ∀ name, name ≠ .selfAttnQProj ∧ name ≠ .selfAttnKProj →
    w'.getWeightsOfLayer name = w.getWeightsOfLayer name

namespace QwenWeights.SameValues

variable (hw : weights.SameValues weights') {x r : Nat → R}
include hw

theorem valueRow_eq : valueRow F weights' l x = valueRow F weights l x := by
  funext i
  rw [valueRow, valueRow, hw.layer .selfAttnVProj (by decide),
    hw.layer .inputLayernorm (by decide)]

theorem layerOutput_eq : layerOutput F weights' l x r = layerOutput F weights l x r := by
  have hinput : ∀ y : Nat → R, mlpInput F weights' l y = mlpInput F weights l y := by
    intro y
    rw [mlpInput, mlpInput, hw.layer .postAttentionLayernorm (by decide)]
  have hhidden : ∀ y : Nat → R, mlpHidden F weights' l y = mlpHidden F weights l y := by
    intro y
    funext i
    simp only [mlpHidden, mlpProjection, hinput, hw.layer .mlpGateProj (by decide),
      hw.layer .mlpUpProj (by decide)]
  have hattention : ∀ y : Nat → R,
      afterAttention weights' l x y = afterAttention weights l x y := by
    intro y
    funext i
    rw [afterAttention, afterAttention, hw.layer .selfAttnOProj (by decide)]
  funext i
  simp only [layerOutput, mlpOutput, mlpDown, hattention, hhidden,
    hw.layer .mlpDownProj (by decide)]

end QwenWeights.SameValues

/-! ## Heads -/

section Heads

variable {m m' m₁ m₁' : Memory R} {b : Buffer} {p : Nat}

/-- Two memories after as many heads of `q` and `k` have been normalised, from `m` and `m'`. -/
structure Normalizing (m m' m₁ m₁' : Memory R) : Prop where
  full : m₁.Full
  full' : m₁'.Full
  q : m₁' .q = m₁ .q
  keyCache : m₁' .keyCache = m₁ .keyCache
  same : ∀ b, b ≠ .q → b ≠ .keyCache → m₁ b = m b ∧ m₁' b = m' b

theorem Normalizing.head {w : Nat → UInt16} (h : Normalizing m m' m₁ m₁')
    (hb : b = .q ∨ b = .keyCache) :
    BothOk (normalizeHead F w pos (.vector b p 128) m₁)
      (normalizeHead F w pos (.vector b p 128) m₁') (Normalizing m m') := by
  have hx : m₁.Holds b p 128 (m₁.values b p) := h.full.holds
  have hx' : m₁'.Holds b p 128 (m₁.values b p) := by
    apply hx.congr
    rcases hb with rfl | rfl
    · exact h.q
    · exact h.keyCache
  refine .of_ok (normalizeHead_eq F hx) (normalizeHead_eq F hx')
    ⟨h.full.fill, h.full'.fill, Cells.fill_same h.q, Cells.fill_same h.keyCache, fun b' hq hk => ?_⟩
  have hne : b' ≠ b := by
    rcases hb with rfl | rfl
    · exact hq
    · exact hk
  rw [Cells.fill_of_ne hne, Cells.fill_of_ne hne]
  exact h.same b' hq hk

theorem normalizeHeads_both (hw : weights.SameValues weights') (hl : l < 28) (hpos : pos < n)
    (hm : m.Full) (hm' : m'.Full) (hq : m' .q = m .q) (hk : m' .keyCache = m .keyCache) :
    BothOk
      (normalizeHeads F weights l pos (setupBuffers n)
        ((((setupBuffers n).keyCache.slice l).slice pos).reshape2 8 128) m)
      (normalizeHeads F weights' l pos (setupBuffers n)
        ((((setupBuffers n).keyCache.slice l).slice pos).reshape2 8 128) m')
      (Normalizing m m') := by
  have hstart : Normalizing m m' m m' := ⟨hm, hm', hq, hk, fun _ _ _ => ⟨rfl, rfl⟩⟩
  simp only [normalizeHeads, hw.layer .selfAttnQNorm (by decide),
    hw.layer .selfAttnKNorm (by decide)]
  refine BothOk.bind (BothOk.forRange (fun _ => Normalizing m m') hstart fun i hi s t hst => ?_)
    fun s t hst => BothOk.forRange (fun _ => Normalizing m m') hst fun i hi s t hst => ?_
  · rw [setupBuffers_q_slice hi]
    exact hst.head F (Or.inl rfl)
  · rw [k_slice hl hpos hi]
    exact hst.head F (Or.inr rfl)

end Heads

section Mixture

variable [LinearOrder R] {m m' : Memory R}

/-- What the heads mix depends on two rows of the value cache. -/
theorem mixedRow_agree (hq : m' .q = m .q) (hk : m' .keyCache = m .keyCache)
    (h0 : m.Agree m' .valueCache (rowStart n l 0) 1024)
    (hpos : m.Agree m' .valueCache (rowStart n l pos) 1024) {j : Nat} (hj : j < 2048) :
    mixedRow F n m' l pos j = mixedRow F n m l pos j := by
  have hcell : ∀ p, m.Agree m' .valueCache (rowStart n l p) 1024 →
      headValue n m' l (j / 128) p (j % 128) = headValue n m l (j / 128) p (j % 128) := by
    intro p hp
    have hi := hp (j / 128 / 2 * 128 + j % 128) (by omega)
    rw [headValue, headValue, Cells.values, Cells.values, Nat.add_assoc, hi]
  simp only [mixedRow, mixed, hcell 0 h0, hcell pos hpos, headShare, headScore_congr F hq hk]

end Mixture

/-! ## Two passes -/

section Passes

variable [LinearOrder R] {same : Prop} {s s' : Scratch R}

/-- Two passes before layer `k` of the token at `pos`. They hold the same hidden states where
they have the same token. -/
structure Alike (n pos k : Nat) (same : Prop) (s s' : Scratch R) : Prop where
  tensors : s.tensors = setupBuffers n
  tensors' : s'.tensors = setupBuffers n
  full : s.memory.Full
  full' : s'.memory.Full
  q : s'.memory .q = s.memory .q
  keyCache : s'.memory .keyCache = s.memory .keyCache
  rows : ∀ l < 28, pos ≠ 0 ∨ l < k → s.memory.Agree s'.memory .valueCache (rowStart n l 0) 1024
  hidden : same → s.memory.Agree s'.memory .hiddenStates 0 1024

omit [Field R] [LinearOrder R] in
/-- Before the next token nothing is asked of the hidden states. -/
theorem Alike.next (h : Alike n pos 28 same s s') : Alike n (pos + 1) 0 False s s' where
  tensors := h.tensors
  tensors' := h.tensors'
  full := h.full
  full' := h.full'
  q := h.q
  keyCache := h.keyCache
  rows l hl _ := h.rows l hl (Or.inr hl)
  hidden hf := hf.elim

omit [LinearOrder R] in
theorem Alike.hidden_values (h : Alike n pos k same s s') :
    ∃ x x', s.memory.Holds .hiddenStates 0 1024 x ∧ s'.memory.Holds .hiddenStates 0 1024 x' ∧
      (same → x' = x) := by
  by_cases hs : same
  · exact ⟨_, _, h.full.holds, (h.hidden hs).holds h.full.holds, fun _ => rfl⟩
  · exact ⟨_, _, h.full.holds, h.full'.holds, fun h => absurd h hs⟩

omit [Field R] [LinearOrder R] in
/-- New hidden states. -/
theorem Alike.fill {same' : Prop} {m m' : Memory R} {x x' : Nat → R}
    (h : Alike n pos k same' ⟨setupBuffers n, m⟩ ⟨setupBuffers n, m'⟩) (hx : same → x' = x) :
    Alike n pos k same ⟨setupBuffers n, m.fill .hiddenStates 0 1024 x⟩
      ⟨setupBuffers n, m'.fill .hiddenStates 0 1024 x'⟩ where
  tensors := rfl
  tensors' := rfl
  full := Cells.Full.fill h.full
  full' := Cells.Full.fill h.full'
  q := h.q
  keyCache := h.keyCache
  rows := h.rows
  hidden hs := by
    rw [hx hs]
    exact Cells.holds_fill.agree Cells.holds_fill

/-- A layer of two passes; the first tokens are the same. -/
theorem Alike.layer (h : Alike n pos l same s s') (hw : weights.SameValues weights') (hl : l < 28)
    (hpos : pos < n) (hfirst : pos = 0 → same) :
    BothOk (forwardLayer F weights pos l s) (forwardLayer F weights' pos l s')
      (Alike n pos (l + 1) same) := by
  obtain ⟨x, x', hx, hx', hxx⟩ := h.hidden_values
  obtain ⟨t, m⟩ := s
  obtain ⟨t', m'⟩ := s'
  obtain ⟨rfl, rfl, hm, hm', hq, hk, hrows, -⟩ := h
  simp only at hm hm' hq hk hrows hx hx'
  obtain ⟨m₂, m₂', hheads, hheads', hnorm⟩ := normalizeHeads_both F hw hl hpos
    (show (projected F weights n l pos x m).Full from hm.fill.fill)
    (show (projected F weights' n l pos x' m').Full from hm'.fill.fill) hq hk
  have hv : m₂ .valueCache = (m.fill .valueCache (rowStart n l pos) 1024
      (valueRow F weights l x)) .valueCache := (hnorm.same .valueCache (by decide) (by decide)).1
  have hv' : m₂' .valueCache = (m'.fill .valueCache (rowStart n l pos) 1024
      (valueRow F weights' l x')) .valueCache := (hnorm.same .valueCache (by decide) (by decide)).2
  -- rows of position 0 that this layer does not write
  have hkeep : ∀ l' < 28, l' ≠ l ∨ pos ≠ 0 → pos ≠ 0 ∨ l' < l →
      m₂.Agree m₂' .valueCache (rowStart n l' 0) 1024 := fun l' hl' hne hlt =>
    ((hrows l' hl' hlt).fill_outside (rowStart_disjoint (by omega) hpos
      (hne.imp_right Ne.symm))).congr hv hv'
  have hwritten : same → m₂.Agree m₂' .valueCache (rowStart n l pos) 1024 := by
    intro hs
    rw [hw.valueRow_eq, hxx hs] at hv'
    exact (Cells.holds_fill.congr hv).agree (Cells.holds_fill.congr hv')
  have hrow0 : m₂.Agree m₂' .valueCache (rowStart n l 0) 1024 := by
    by_cases hp : pos = 0
    · have hrow := hwritten (hfirst hp)
      rwa [hp] at hrow
    · exact hkeep l hl (Or.inr hp) (Or.inl hp)
  obtain ⟨r', hr', hrr⟩ : ∃ r', (∀ j < 2048, mixedRow F n m₂' l pos j = r' j) ∧
      (same → r' = mixedRow F n m₂ l pos) := by
    by_cases hs : same
    · exact ⟨_, fun j hj => mixedRow_agree F hnorm.q hnorm.keyCache hrow0 (hwritten hs) hj,
        fun _ => rfl⟩
    · exact ⟨_, fun _ _ => rfl, fun h => absurd h hs⟩
  obtain ⟨m₃, hrun, hfull, hq₃, hk₃, hv₃, hx₃⟩ := forwardLayer_ok F weights hl hpos hx hheads
    hnorm.full (fun b hbq hbk => (hnorm.same b hbq hbk).1) fun _ _ => rfl
  obtain ⟨m₃', hrun', hfull', hq₃', hk₃', hv₃', hx₃'⟩ := forwardLayer_ok F weights' hl hpos hx'
    hheads' hnorm.full' (fun b hbq hbk => (hnorm.same b hbq hbk).2) hr'
  refine .of_ok hrun hrun' ⟨rfl, rfl, hfull, hfull', ?_, ?_, fun l' hl' hlt => ?_, fun hs => ?_⟩
  · exact hq₃'.trans (hnorm.q.trans hq₃.symm)
  · exact hk₃'.trans (hnorm.keyCache.trans hk₃.symm)
  · have hrow : m₂.Agree m₂' .valueCache (rowStart n l' 0) 1024 := by
      by_cases hll : l' = l
      · rw [hll]
        exact hrow0
      · exact hkeep l' hl' (Or.inl hll) (by omega)
    exact hrow.congr (hv₃.trans hv.symm) (hv₃'.trans hv'.symm)
  · rw [hw.layerOutput_eq, hxx hs, hrr hs] at hx₃'
    exact hx₃.agree hx₃'

/-- A token of two passes. -/
theorem Alike.token {t t' : Int} (h : Alike n pos 0 False s s') (hw : weights.SameValues weights')
    (hpos : pos < n) (hfirst : pos = 0 → t' = t) :
    BothOk (forwardToken F weights s (t, pos)) (forwardToken F weights' s' (t', pos))
      (Alike n pos 28 (t' = t)) := by
  have hconvert : ∀ (w : QwenWeights) (t : Int) (m : Memory R),
      convertBf16ToFloat (w.getEmbeddingOfToken t) embeddingDim (setupBuffers n).hiddenStates m =
        .ok (m.fill .hiddenStates 0 1024 fun i => bf16 (w.getEmbeddingOfToken t i)) :=
    fun _ _ _ => forRange_fill fun i hi => rfl
  obtain ⟨ts, m⟩ := s
  obtain ⟨ts', m'⟩ := s'
  obtain rfl : ts = setupBuffers n := h.tensors
  obtain rfl : ts' = setupBuffers n := h.tensors'
  have hstart : Alike n pos 0 (t' = t)
      ⟨setupBuffers n, m.fill .hiddenStates 0 1024 fun i => bf16 (weights.getEmbeddingOfToken t i)⟩
      ⟨setupBuffers n,
        m'.fill .hiddenStates 0 1024 fun i => bf16 (weights'.getEmbeddingOfToken t' i)⟩ :=
    h.fill fun hs => by rw [hs, hw.embedding]
  obtain ⟨⟨us, m₁⟩, ⟨us', m₁'⟩, hrun, hrun', hlayers⟩ :=
    BothOk.forRange (fun k => Alike n pos k (t' = t)) hstart
      fun l hl s s' hs => hs.layer F hw hl hpos hfirst
  obtain ⟨x, x', hx, hx', hxx⟩ := hlayers.hidden_values
  obtain rfl : us = setupBuffers n := hlayers.tensors
  obtain rfl : us' = setupBuffers n := hlayers.tensors'
  refine .of_ok
    (bind_of_ok (hconvert weights t m) (bind_of_ok hrun
      (bind_of_ok (rmsNormFloatBf16Weights_eq F _ _ hx fun _ => rfl) rfl)))
    (bind_of_ok (hconvert weights' t' m') (bind_of_ok hrun'
      (bind_of_ok (rmsNormFloatBf16Weights_eq F _ _ hx' fun _ => rfl) rfl)))
    (hlayers.fill fun hs => by rw [hxx hs, hw.norm])

/-- Two texts of as many tokens, from a position on. -/
theorem Alike.tokens {ts ts' : List Int} (hw : weights.SameValues weights')
    (hlength : ts'.length = ts.length) (hpos : pos + ts.length ≤ n)
    (hfirst : pos = 0 → ts'.head? = ts.head?) (h : Alike n pos 0 False s s') :
    BothOk ((ts.zipIdx pos).foldlM (forwardToken F weights) s)
      ((ts'.zipIdx pos).foldlM (forwardToken F weights') s')
      (Alike n (pos + ts.length) 0 (ts ≠ [] ∧ ts'.getLast? = ts.getLast?)) := by
  induction ts generalizing ts' pos s s' with
  | nil =>
    obtain rfl := List.length_eq_zero_iff.mp hlength
    exact .of_ok rfl rfl ⟨h.tensors, h.tensors', h.full, h.full', h.q, h.keyCache, h.rows,
      fun hs => absurd rfl hs.1⟩
  | cons t ts ih =>
    obtain ⟨t', us, rfl⟩ := List.exists_cons_of_length_eq_add_one hlength
    have hlength : us.length = ts.length := Nat.succ.inj hlength
    rw [List.length_cons] at hpos
    rw [List.zipIdx_cons, List.zipIdx_cons, List.foldlM_cons, List.foldlM_cons]
    refine BothOk.bind (h.token F hw (by omega) fun hp => Option.some.inj (hfirst hp))
      fun s₁ s₁' h₁ => ?_
    cases ts with
    | nil =>
      -- the last token: its hidden states are the result
      obtain rfl := List.length_eq_zero_iff.mp hlength
      exact .of_ok rfl rfl ⟨h₁.tensors, h₁.tensors', h₁.full, h₁.full', h₁.q, h₁.keyCache,
        fun l hl _ => h₁.rows l hl (Or.inr hl), fun hs => h₁.hidden (Option.some.inj hs.2)⟩
    | cons u ts =>
      obtain ⟨u', us, rfl⟩ := List.exists_cons_of_length_eq_add_one hlength
      have hrest := ih hlength (by omega) (fun hp => absurd hp (Nat.succ_ne_zero pos)) h₁.next
      rw [Nat.succ_add] at hrest
      exact hrest.mono fun s₂ s₂' h₂ => ⟨h₂.tensors, h₂.tensors', h₂.full, h₂.full', h₂.q,
        h₂.keyCache, h₂.rows, fun hs => h₂.hidden ⟨List.cons_ne_nil _ _, hs.2⟩⟩

/-- The embedding of a text depends on the number of its tokens, the first and the last one of
them, the weights without the projections to `q` and `k`, and on what the buffers of `q` and of
the key cache held, and on nothing else. -/
theorem calculateQwenEmbedding_ends (hWeights : weights.SameValues weights')
    {c c' : Buffer → Nat → R} (hQ : c' .q = c .q) (hKeyCache : c' .keyCache = c .keyCache)
    {encode : List UInt8 → List Int} {query query' : List UInt8} (hTokens : encode query ≠ [])
    (hLength : (encode query').length = (encode query).length)
    (hFirst : (encode query').head? = (encode query).head?)
    (hLast : (encode query').getLast? = (encode query).getLast?) :
    calculateQwenEmbedding F weights' encode query' (.ofContents c') =
      calculateQwenEmbedding F weights encode query (.ofContents c) := by
  have hstart : Alike (encode query).length 0 0 False
      ⟨setupBuffers (encode query).length, .ofContents c⟩
      ⟨setupBuffers (encode query).length, .ofContents c'⟩ := by
    refine ⟨rfl, rfl, Memory.full_ofContents c, Memory.full_ofContents c', ?_, ?_,
      fun l hl h => absurd h (by omega), fun h => h.elim⟩
    · exact congrArg (fun x i => some (x i)) hQ
    · exact congrArg (fun x i => some (x i)) hKeyCache
  obtain ⟨⟨us, m₁⟩, ⟨us', m₁'⟩, hrun, hrun', hend⟩ :=
    hstart.tokens F hWeights hLength (Nat.zero_add _).le fun _ => hFirst
  obtain ⟨x, x', hx, hx', hxx⟩ := hend.hidden_values
  obtain rfl : us = setupBuffers _ := hend.tensors
  obtain rfl : us' = setupBuffers _ := hend.tensors'
  rw [embedding_of_hidden F weights rfl hrun hx, embedding_of_hidden F weights' hLength hrun' hx',
    hxx ⟨hTokens, hLast⟩]

end Passes

/-- All weights are 0, but those of the projection to `q` are `a`. -/
def queryWeights (a : UInt16) : QwenWeights where
  getEmbeddingOfToken _ _ := 0
  getNormWeights _ := 0
  getWeightsOfLayer name _ _ := if name = .selfAttnQProj then a else 0

/-- The buffers hold 0, but the residual buffer holds `a`. -/
def residualContents (a : ℚ) (b : Buffer) (_ : Nat) : ℚ := if b = .residual then a else 0

/-- Texts that differ in the middle. -/
theorem calculateQwenEmbedding_ends_bytes :
    calculateQwenEmbedding (plainFunctions 2) (queryWeights 1) byteTokens [97, 98, 99]
        (.ofContents (residualContents 1)) =
      calculateQwenEmbedding (plainFunctions 2) (queryWeights 0) byteTokens [97, 100, 99]
        (.ofContents (residualContents 0)) := by
  have hweights : (queryWeights 0).SameValues (queryWeights 1) := by
    refine ⟨rfl, rfl, fun name h => ?_⟩
    funext l i
    exact (if_neg h.1).trans (if_neg h.1).symm
  have hbuffer : ∀ b, b ≠ .residual → residualContents 1 b = residualContents 0 b := by
    intro b hb
    funext i
    exact (if_neg hb).trans (if_neg hb).symm
  exact calculateQwenEmbedding_ends (plainFunctions 2) hweights (hbuffer .q (by decide))
    (hbuffer .keyCache (by decide)) (by decide) (by decide) (by decide) (by decide)

end Spheres.Qwen
